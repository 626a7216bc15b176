import SchemaChange.Text.Search

/-!
# Occurrences and lines

What a search reports about every place that it passed, and what the lines of a text have
to do with the text. A pattern without line breaks never reaches behind the end of a line,
so a line can be searched as if the rest of the text were not there. Occurrences are replaced from
the left, so marks that have been doubled are found again in pairs.
-/
namespace SchemaChange.Text

/-- The search stops at the first place where the pattern occurs. -/
theorem find?_eq_some {pattern cs : List Char} {n : Nat} (h : find? pattern cs = some n) :
    pattern <+: cs.drop n ∧ ∀ m < n, ¬ pattern <+: cs.drop m := by
  induction cs generalizing n with
  | nil =>
      rw [find?] at h
      split at h
      · rename_i hp
        cases h
        simp [List.isEmpty_iff.1 hp]
      · cases h
  | cons c cs ih =>
      rw [find?] at h
      split at h
      · rename_i hp
        cases h
        exact ⟨List.isPrefixOf_iff_prefix.1 hp, by simp⟩
      · rename_i hp
        obtain ⟨k, hk, rfl⟩ := Option.map_eq_some_iff.1 h
        obtain ⟨hfound, hbefore⟩ := ih hk
        refine ⟨by simpa using hfound, fun m hm => ?_⟩
        cases m with
        | zero => simpa [List.isPrefixOf_iff_prefix] using hp
        | succ m => simpa using hbefore m (by omega)

/-- A search that fails has passed every place. -/
theorem find?_eq_none {pattern cs : List Char} (h : find? pattern cs = none) (m : Nat) :
    ¬ pattern <+: cs.drop m := by
  induction cs generalizing m with
  | nil =>
      rw [find?] at h
      split at h
      · cases h
      · rename_i hp
        simpa [List.isEmpty_iff] using hp
  | cons c cs ih =>
      rw [find?] at h
      split at h
      · cases h
      · rename_i hp
        have hrest : find? pattern cs = none := by simpa using h
        cases m with
        | zero => simpa [List.isPrefixOf_iff_prefix] using hp
        | succ m => simpa using ih hrest m

/-- A search stops no later than at a place where the pattern occurs. -/
theorem exists_find?_le {pattern cs : List Char} {n : Nat} (h : pattern <+: cs.drop n) :
    ∃ k ≤ n, find? pattern cs = some k := by
  cases hfind : find? pattern cs with
  | none => exact absurd h (find?_eq_none hfind n)
  | some k => exact ⟨k, Nat.le_of_not_lt fun hlt => (find?_eq_some hfind).2 n hlt h, rfl⟩

/-- What can follow a line: nothing, or a line break and further text. -/
def EndsLine (tail : List Char) : Prop := ∀ c, tail.head? = some c → c = '\n'

theorem endsLine_nil : EndsLine [] := by simp [EndsLine]

theorem endsLine_newline (cs : List Char) : EndsLine ('\n' :: cs) := by simp [EndsLine]

theorem endsLine_lines (lines : List (List Char)) : EndsLine (lines.flatMap ('\n' :: ·)) := by
  cases lines with
  | nil => exact endsLine_nil
  | cons line lines => exact endsLine_newline _

/-- A pattern reaches over no character that it does not hold. -/
theorem prefix_append_cons_iff {pattern line : List Char} {c : Char} (hc : c ∉ pattern)
    (cs : List Char) : pattern <+: line ++ c :: cs ↔ pattern <+: line := by
  constructor
  · intro h
    rcases List.prefix_or_prefix_of_prefix h (List.prefix_append line (c :: cs)) with h' | h'
    · exact h'
    · obtain ⟨more, rfl⟩ := h'
      have hmore : more <+: c :: cs := (List.prefix_append_right_inj line).1 h
      cases more with
      | nil => simp
      | cons d more =>
          obtain ⟨rfl, -⟩ := List.cons_prefix_cons.1 hmore
          simp at hc
  · exact fun h => h.trans (List.prefix_append line (c :: cs))

/-- A pattern without line breaks occurs at a place of a line if and only if it occurs there
in the whole text. -/
theorem prefix_append_iff {pattern line tail : List Char} (hp : '\n' ∉ pattern)
    (ht : EndsLine tail) : pattern <+: line ++ tail ↔ pattern <+: line := by
  cases tail with
  | nil => rw [List.append_nil]
  | cons c tail =>
      obtain rfl : c = '\n' := ht c rfl
      exact prefix_append_cons_iff hp tail

theorem exists_splitOn {α : Type} [DecidableEq α] (mark : α) (as : List α) :
    ∃ part parts, splitOn mark as = part :: parts :=
  List.exists_cons_of_ne_nil (splitOn_ne_nil mark as)

theorem exists_splitOn_last {α : Type} [DecidableEq α] (mark : α) (as : List α) :
    ∃ init last, splitOn mark as = init ++ [last] :=
  ⟨_, _, (List.dropLast_concat_getLast (splitOn_ne_nil mark as)).symm⟩

theorem splitOn_cons {α : Type} [DecidableEq α] {mark : α} {as part : List α}
    {parts : List (List α)} (h : splitOn mark as = part :: parts) (a : α) :
    splitOn mark (a :: as) =
      if a = mark then [] :: part :: parts else (a :: part) :: parts := by
  rw [splitOn, h]

/-- A text without the mark goes to the first part. -/
theorem splitOn_append {α : Type} [DecidableEq α] {mark : α} {before as part : List α}
    {parts : List (List α)} (hbefore : mark ∉ before)
    (h : splitOn mark as = part :: parts) :
    splitOn mark (before ++ as) = (before ++ part) :: parts := by
  induction before with
  | nil => exact h
  | cons b before ih =>
      simp only [List.mem_cons, not_or] at hbefore
      rw [List.cons_append, splitOn_cons (ih hbefore.2), if_neg (Ne.symm hbefore.1)]
      rfl

/-- A text without the mark is one part. -/
theorem splitOn_of_not_mem {α : Type} [DecidableEq α] {mark : α} {as : List α} (h : mark ∉ as) :
    splitOn mark as = [as] := by
  have hone : splitOn mark (as ++ []) = [as ++ []] := splitOn_append h rfl
  rwa [List.append_nil] at hone

/-- The parts of a list, each behind its mark but the first, are the list. -/
theorem splitOn_flatten {α : Type} [DecidableEq α] {mark : α} {cs line : List α}
    {lines : List (List α)} (h : splitOn mark cs = line :: lines) :
    cs = line ++ lines.flatMap (mark :: ·) := by
  induction cs generalizing line lines with
  | nil => simp_all [splitOn]
  | cons c cs ih =>
      obtain ⟨part, parts, hs⟩ := exists_splitOn mark cs
      have hcs := ih hs
      rw [splitOn_cons hs] at h
      split at h
      · rename_i hc
        obtain ⟨rfl, rfl⟩ := List.cons.inj h
        simp [hc, ← hcs]
      · obtain ⟨rfl, rfl⟩ := List.cons.inj h
        simp [← hcs]

/-- A text and a text behind its last line have their lines one behind the other. -/
theorem exists_splitOn_append {cs line tail : List Char} {lines : List (List Char)}
    (h : splitOn '\n' cs = line :: lines) (ht : EndsLine tail) :
    ∃ behind, splitOn '\n' tail = [] :: behind ∧
      splitOn '\n' (cs ++ tail) = line :: (lines ++ behind) := by
  induction cs generalizing line lines with
  | nil =>
      cases h
      cases tail with
      | nil => exact ⟨[], rfl, rfl⟩
      | cons c tail =>
          obtain rfl : c = '\n' := ht c rfl
          obtain ⟨part, parts, hparts⟩ := exists_splitOn '\n' tail
          have hsplit := splitOn_cons hparts '\n'
          exact ⟨part :: parts, hsplit, hsplit⟩
  | cons c cs ih =>
      obtain ⟨part, parts, hparts⟩ := exists_splitOn '\n' cs
      obtain ⟨behind, htail, happend⟩ := ih hparts
      refine ⟨behind, htail, ?_⟩
      rw [splitOn_cons hparts] at h
      rw [List.cons_append, splitOn_cons happend]
      split at h
      · rename_i hc
        cases h
        rw [if_pos hc]
        rfl
      · rename_i hc
        cases h
        rw [if_neg hc]

/-- No line holds a line break. -/
theorem not_mem_of_mem_splitOn {α : Type} [DecidableEq α] {mark : α} {as part : List α}
    (h : part ∈ splitOn mark as) : mark ∉ part := by
  induction as generalizing part with
  | nil => simp_all [splitOn]
  | cons a as ih =>
      obtain ⟨first, others, hs⟩ := exists_splitOn mark as
      rw [hs] at ih
      rw [splitOn_cons hs] at h
      split at h
      · rcases List.mem_cons.1 h with rfl | h
        · simp
        · exact ih h
      · rename_i ha
        rcases List.mem_cons.1 h with rfl | h
        · have := ih (List.mem_cons_self ..)
          simp [this, Ne.symm ha]
        · exact ih (List.mem_cons_of_mem _ h)

/-- Parts without the mark are found again. -/
theorem splitOn_flatMap {α : Type} [DecidableEq α] {mark : α} {first : List α}
    {others : List (List α)} (h : ∀ part ∈ first :: others, mark ∉ part) :
    splitOn mark (first ++ others.flatMap (mark :: ·)) = first :: others := by
  induction others generalizing first with
  | nil =>
      have hnil : splitOn mark ([] : List α) = [[]] := rfl
      rw [List.flatMap_nil, splitOn_append (h first (List.mem_cons_self ..)) hnil,
        List.append_nil]
  | cons next others ih =>
      have hothers := splitOn_cons (ih fun part hpart => h part (List.mem_cons_of_mem _ hpart)) mark
      rw [if_pos rfl] at hothers
      rw [List.flatMap_cons, List.cons_append,
        splitOn_append (h first (List.mem_cons_self ..)) hothers, List.append_nil]

/-- The last part of a list and the first part of one behind it are one part. -/
theorem splitOn_append_parts {α : Type} [DecidableEq α] {mark : α} {as bs last part : List α}
    {init parts : List (List α)} (has : splitOn mark as = init ++ [last])
    (hbs : splitOn mark bs = part :: parts) :
    splitOn mark (as ++ bs) = init ++ (last ++ part) :: parts := by
  have hfree : ∀ p ∈ init ++ [last], mark ∉ p := fun p hp =>
    not_mem_of_mem_splitOn (has ▸ hp)
  have hfree' : ∀ p ∈ part :: parts, mark ∉ p := fun p hp =>
    not_mem_of_mem_splitOn (hbs ▸ hp)
  cases init with
  | nil =>
      obtain rfl : as = last := by simpa using splitOn_flatten has
      exact splitOn_append (hfree as (by simp)) hbs
  | cons first init =>
      have hflat : as ++ bs =
          first ++ (init ++ (last ++ part) :: parts).flatMap (mark :: ·) := by
        rw [splitOn_flatten has, splitOn_flatten hbs]
        simp
      rw [hflat, splitOn_flatMap]
      · rfl
      · intro p hp
        simp only [List.mem_cons, List.mem_append] at hp
        rcases hp with rfl | hp | rfl | hp
        · exact hfree p (by simp)
        · exact hfree p (by simp [hp])
        · simpa using ⟨hfree last (by simp), hfree' part (by simp)⟩
        · exact hfree' p (List.mem_cons_of_mem _ hp)

/-- The parts of a joined text are the parts of what has been joined. -/
theorem splitOn_intercalate {α : Type} [DecidableEq α] {mark : α} {texts : List (List α)}
    (h : texts ≠ []) :
    splitOn mark ([mark].intercalate texts) = texts.flatMap (splitOn mark) := by
  induction texts with
  | nil => exact absurd rfl h
  | cons first others ih =>
      cases others with
      | nil => simp
      | cons next others =>
          obtain ⟨init, last, hfirst⟩ := exists_splitOn_last mark first
          obtain ⟨part, parts, hrest⟩ :=
            exists_splitOn mark ([mark].intercalate (next :: others))
          have hmarked := (splitOn_cons hrest mark).trans (if_pos rfl)
          rw [List.intercalate_cons_cons, List.append_assoc, List.singleton_append,
            splitOn_append_parts hfirst hmarked, List.flatMap_cons, ← ih (by simp), hfirst, hrest]
          simp

/-- Before the last part stands a mark, unless it is the whole list. -/
theorem exists_of_splitOn_last {α : Type} [DecidableEq α] {mark : α} {as last : List α}
    {init : List (List α)} (h : splitOn mark as = init ++ [last]) :
    ∃ before, as = before ++ last ∧ (before = [] ∨ before.getLast? = some mark) := by
  cases init with
  | nil => exact ⟨[], by simpa using splitOn_flatten h, .inl rfl⟩
  | cons first init =>
      refine ⟨first ++ init.flatMap (mark :: ·) ++ [mark], ?_, .inr (List.getLast?_concat ..)⟩
      rw [splitOn_flatten h]
      simp

/-- A part of a list stands between two marks or ends of the list. -/
theorem exists_of_mem_splitOn {α : Type} [DecidableEq α] {mark : α} {as part : List α}
    (h : part ∈ splitOn mark as) : ∃ before after, as = before ++ part ++ after ∧
      (before = [] ∨ before.getLast? = some mark) ∧ (after = [] ∨ after.head? = some mark) := by
  obtain ⟨first, others, hsplit⟩ := exists_splitOn mark as
  have hopens : ∀ parts : List (List α), parts.flatMap (mark :: ·) = [] ∨
      (parts.flatMap (mark :: ·)).head? = some mark := by
    intro parts
    cases parts with
    | nil => exact .inl rfl
    | cons part parts => exact .inr rfl
  rw [hsplit] at h
  rw [splitOn_flatten hsplit]
  rcases List.mem_cons.1 h with rfl | hmem
  · exact ⟨[], others.flatMap (mark :: ·), rfl, .inl rfl, hopens others⟩
  · obtain ⟨earlier, later, rfl⟩ := List.append_of_mem hmem
    refine ⟨first ++ earlier.flatMap (mark :: ·) ++ [mark], later.flatMap (mark :: ·), ?_,
      .inr ?_, hopens later⟩
    · simp
    · simp

/-- Beside a part that lacks one element of the list stands a mark. -/
theorem eq_of_mem_splitOn {α : Type} [DecidableEq α] {mark : α} {as part : List α}
    (h : part ∈ splitOn mark as) (hlength : as.length = part.length + 1) :
    as = part ++ [mark] ∨ as = mark :: part := by
  obtain ⟨before, after, rfl, hbefore, hafter⟩ := exists_of_mem_splitOn h
  simp only [List.length_append] at hlength
  cases before with
  | nil =>
      obtain ⟨a, rfl⟩ : ∃ a, after = [a] := List.length_eq_one_iff.1 (by simpa using hlength)
      obtain rfl : a = mark := by simpa using hafter
      exact .inl rfl
  | cons b before =>
      rw [List.length_cons] at hlength
      obtain rfl : before = [] := List.length_eq_zero_iff.1 (by omega)
      obtain rfl : after = [] := List.length_eq_zero_iff.1 (by omega)
      obtain rfl : b = mark := by simpa using hbefore
      exact .inr (by simp)

/-- The first line of a text goes on behind a part without a line break. -/
theorem takeWhile_line {cs : List Char} (hline : '\n' ∉ cs) (more : List Char) :
    (cs ++ more).takeWhile (· != '\n') = cs ++ more.takeWhile (· != '\n') := by
  refine List.takeWhile_append_of_pos fun c hc => ?_
  simpa using fun he : c = '\n' => hline (he ▸ hc)

theorem takeWhile_of_splitOn {cs line : List Char} {lines : List (List Char)}
    (h : splitOn '\n' cs = line :: lines) : cs.takeWhile (· != '\n') = line := by
  have hline : '\n' ∉ line := not_mem_of_mem_splitOn (h ▸ List.mem_cons_self ..)
  rw [splitOn_flatten h, takeWhile_line hline]
  cases lines <;> simp

/-- What comes before the first possible occurrence is copied. -/
theorem replaceAll_append {mark : Char} {pattern replacement lead : List Char}
    (h : mark ∉ lead) (tail : List Char) :
    replaceAll (mark :: pattern) replacement (lead ++ tail) =
      lead ++ replaceAll (mark :: pattern) replacement tail := by
  induction lead with
  | nil => rfl
  | cons c lead ih =>
      simp only [List.mem_cons, not_or] at h
      rw [List.cons_append, replaceAll, if_neg, ih h.2]
      · rfl
      · simp [List.isPrefixOf, h.1]

/-- An occurrence is replaced. -/
theorem replaceAll_occurrence {pattern replacement : List Char} (h : pattern ≠ [])
    (tail : List Char) : replaceAll pattern replacement (pattern ++ tail) =
      replacement ++ replaceAll pattern replacement tail := by
  cases pattern with
  | nil => exact absurd rfl h
  | cons c pattern =>
      rw [List.cons_append, replaceAll, if_pos (by simp [List.isPrefixOf_iff_prefix])]
      simp

theorem replaceAll_eq_self {mark : Char} {pattern replacement cs : List Char} (h : mark ∉ cs) :
    replaceAll (mark :: pattern) replacement cs = cs := by
  have : replaceAll (mark :: pattern) replacement (cs ++ []) =
      cs ++ replaceAll (mark :: pattern) replacement [] := replaceAll_append h []
  rwa [List.append_nil, replaceAll, List.append_nil] at this

/-- Doubling the marks of a text loses nothing: from the left, every two are one of it. -/
theorem undouble_double (mark : Char) (cs : List Char) :
    replaceAll [mark, mark] [mark] (replaceAll [mark] [mark, mark] cs) = cs := by
  induction cs with
  | nil => rw [replaceAll, replaceAll]
  | cons c cs ih =>
      by_cases hc : c = mark
      · subst hc
        have hdouble : replaceAll [c] [c, c] (c :: cs) = [c, c] ++ replaceAll [c] [c, c] cs :=
          replaceAll_occurrence (List.cons_ne_nil _ _) cs
        rw [hdouble, replaceAll_occurrence (List.cons_ne_nil _ _), ih]
        rfl
      · have hother : mark ∉ [c] := by simpa using Ne.symm hc
        have hcopy : replaceAll [mark] [mark, mark] (c :: cs) =
            [c] ++ replaceAll [mark] [mark, mark] cs := replaceAll_append hother cs
        rw [hcopy, replaceAll_append hother, ih]
        rfl

/-- Replacing something by nothing longer makes no text longer. -/
theorem length_replaceAll_le {pattern replacement : List Char}
    (h : replacement.length ≤ pattern.length) (cs : List Char) :
    (replaceAll pattern replacement cs).length ≤ cs.length := by
  fun_induction replaceAll pattern replacement cs with
  | case1 => exact Nat.le_refl _
  | case2 c rest hp ih =>
      have hle := (List.isPrefixOf_iff_prefix.1 hp.2).length_le
      have hpos := List.length_pos_iff.2 hp.1
      simp only [List.length_append, List.length_drop, List.length_cons] at ih hle ⊢
      omega
  | case3 c rest hp ih => simpa using ih

end SchemaChange.Text
