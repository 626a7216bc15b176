import SchemaChange.Text.Blank

/-!
# Trimming

Trimming takes away blanks and nothing else, and a text that begins and ends with other
characters is its own trimmed form.
-/
namespace SchemaChange.Text

/-- Only blanks are dropped at the front. -/
theorem exists_trimStart (cs : List Char) :
    ∃ lead, cs = lead ++ trimStart cs ∧ ∀ c ∈ lead, isBlank c := by
  refine ⟨cs.takeWhile isBlank, List.takeWhile_append_dropWhile.symm, fun c hc => ?_⟩
  exact List.all_eq_true.1 List.all_takeWhile c hc

/-- Only blanks are dropped at the end. -/
theorem exists_trimEnd (cs : List Char) :
    ∃ trail, cs = trimEnd cs ++ trail ∧ ∀ c ∈ trail, isBlank c := by
  induction cs with
  | nil => exact ⟨[], rfl, by simp⟩
  | cons c cs ih =>
      obtain ⟨trail, hcs, htrail⟩ := ih
      rw [trimEnd]
      cases h : trimEnd cs with
      | cons d ds =>
          rw [h] at hcs
          exact ⟨trail, by simp [← hcs], htrail⟩
      | nil =>
          rw [h, List.nil_append] at hcs
          subst hcs
          by_cases hc : isBlank c
          · exact ⟨c :: cs, by simp [hc], by simpa [hc] using htrail⟩
          · exact ⟨cs, by simp [hc], htrail⟩

/-- A text is its trimmed form with blanks on both sides. -/
theorem exists_trimmed (cs : List Char) :
    ∃ lead trail, cs = lead ++ trimmed cs ++ trail ∧ (∀ c ∈ lead, isBlank c) ∧
      ∀ c ∈ trail, isBlank c := by
  obtain ⟨lead, hlead, hblank⟩ := exists_trimStart cs
  obtain ⟨trail, htrail, hblank'⟩ := exists_trimEnd (trimStart cs)
  exact ⟨lead, trail, by rw [List.append_assoc, trimmed, ← htrail, ← hlead], hblank, hblank'⟩

/-- Something is left of a text that is not blank. -/
theorem trimmed_ne_nil {s : String} (h : allBlank s = false) : trimmed s.toList ≠ [] := by
  intro hnil
  obtain ⟨lead, trail, hcs, hlead, htrail⟩ := exists_trimmed s.toList
  have hall : allBlank s = true := by
    rw [allBlank, hcs, hnil, List.append_nil, List.all_append, List.all_eq_true.2 hlead,
      List.all_eq_true.2 htrail]
    rfl
  rw [hall] at h
  cases h

theorem trimmed_cons_blank {c : Char} (hc : isBlank c) (cs : List Char) :
    trimmed (c :: cs) = trimmed cs := by
  simp [trimmed, trimStart, hc]

/-- Nothing is dropped behind a last character that is not blank. -/
theorem trimEnd_eq_self {cs : List Char} (h : ∀ c, cs.getLast? = some c → isBlank c = false) :
    trimEnd cs = cs := by
  induction cs with
  | nil => rfl
  | cons c cs ih =>
      cases cs with
      | nil => simp [trimEnd, h c rfl]
      | cons d ds =>
          have hds : trimEnd (d :: ds) = d :: ds := ih fun c hc => h c (by simpa using hc)
          rw [trimEnd, hds]

/-- The trimmed end of two texts is that of the second one, unless that is blank. -/
theorem trimEnd_append (cs ds : List Char) :
    trimEnd (cs ++ ds) = if trimEnd ds = [] then trimEnd cs else cs ++ trimEnd ds := by
  induction cs with
  | nil => split <;> simp_all [trimEnd]
  | cons c cs ih =>
      rw [List.cons_append, trimEnd, ih]
      by_cases hds : trimEnd ds = []
      · rw [if_pos hds, if_pos hds, trimEnd]
      · rw [if_neg hds, if_neg hds]
        cases hcs : cs ++ trimEnd ds with
        | nil => simp [hds] at hcs
        | cons e es => simp [hcs]

/-- A text between two characters that are not blank is trimmed. -/
theorem trimmed_eq_self {cs : List Char} (hfirst : ∀ c, cs.head? = some c → isBlank c = false)
    (hlast : ∀ c, cs.getLast? = some c → isBlank c = false) : trimmed cs = cs := by
  have hstart : trimStart cs = cs := by
    cases cs with
    | nil => rfl
    | cons c cs => simp [trimStart, hfirst c rfl]
  rw [trimmed, hstart, trimEnd_eq_self hlast]

/-- A trimmed end is no blank. -/
theorem isBlank_of_getLast?_trimEnd {cs : List Char} {c : Char}
    (h : (trimEnd cs).getLast? = some c) : isBlank c = false := by
  induction cs with
  | nil => cases h
  | cons d cs ih =>
      rw [trimEnd] at h
      cases hcs : trimEnd cs with
      | nil =>
          rw [hcs] at h
          by_cases hd : isBlank d
          · simp [hd] at h
          · simp only [hd, Bool.false_eq_true, if_false, List.getLast?_singleton,
              Option.some.injEq] at h
            simpa [← h] using hd
      | cons e es =>
          rw [hcs] at h ih
          exact ih (by simpa using h)

/-- A trimmed text begins with no blank. -/
theorem isBlank_of_head?_trimmed {cs : List Char} {c : Char}
    (h : (trimmed cs).head? = some c) : isBlank c = false := by
  obtain ⟨trail, htrail, -⟩ := exists_trimEnd (trimStart cs)
  have hhead : (trimStart cs).head? = some c := by
    rw [htrail, List.head?_append, show (trimEnd (trimStart cs)).head? = some c from h]
    rfl
  have hstop := List.head?_dropWhile_not isBlank cs
  rw [trimStart] at hhead
  rw [hhead] at hstop
  exact hstop

theorem allBlank_of_trimmed_ne_nil {s : String} (h : trimmed s.toList ≠ []) :
    allBlank s = false := by
  obtain ⟨lead, trail, hs, -, -⟩ := exists_trimmed s.toList
  obtain ⟨c, cs, hcs⟩ := List.exists_cons_of_ne_nil h
  have hhead : (trimmed s.toList).head? = some c := by rw [hcs, List.head?_cons]
  have hc := isBlank_of_head?_trimmed hhead
  rw [allBlank, hs, hcs]
  simp [hc]

theorem trimEnd_trimmed (cs : List Char) : trimEnd (trimmed cs) = trimmed cs :=
  trimEnd_eq_self fun _ => isBlank_of_getLast?_trimEnd

theorem trimmed_trimmed (cs : List Char) : trimmed (trimmed cs) = trimmed cs :=
  trimmed_eq_self (fun _ => isBlank_of_head?_trimmed) fun _ => isBlank_of_getLast?_trimEnd

/-- Trimming that drops nothing changes nothing. -/
theorem trimmed_eq_of_length {cs : List Char} (h : cs.length ≤ (trimmed cs).length) :
    trimmed cs = cs := by
  obtain ⟨lead, trail, hcs, -, -⟩ := exists_trimmed cs
  have hlength := congrArg List.length hcs
  simp only [List.length_append] at hlength
  obtain rfl : lead = [] := List.length_eq_zero_iff.1 (by omega)
  obtain rfl : trail = [] := List.length_eq_zero_iff.1 (by omega)
  rwa [List.nil_append, List.append_nil, eq_comm] at hcs

theorem length_trimmed_le (cs : List Char) : (trimmed cs).length ≤ cs.length := by
  obtain ⟨lead, trail, hcs, -, -⟩ := exists_trimmed cs
  have hlength := congrArg List.length hcs
  simp only [List.length_append] at hlength
  omega

theorem trimStart_eq_nil_iff (cs : List Char) : trimStart cs = [] ↔ cs.all isBlank = true := by
  induction cs with
  | nil => simp [trimStart]
  | cons c cs ih =>
      rw [trimStart] at ih ⊢
      by_cases hc : isBlank c = true
      · rw [List.dropWhile_cons_of_pos hc, ih, List.all_cons, hc, Bool.true_and]
      · rw [List.dropWhile_cons_of_neg hc]
        simp [hc]

theorem trimStart_append (cs ds : List Char) :
    trimStart (cs ++ ds) = if trimStart cs = [] then trimStart ds else trimStart cs ++ ds := by
  rw [trimStart, List.dropWhile_append]
  simp only [List.isEmpty_iff]
  rfl

/-- The text behind its leading blanks. -/
theorem drop_indent (cs : List Char) : cs.drop (cs.takeWhile isBlank).length = trimStart cs := by
  have hsplit : cs.takeWhile isBlank ++ trimStart cs = cs := List.takeWhile_append_dropWhile
  exact (congrArg (List.drop _) hsplit).symm.trans List.drop_left

/-- A text that neither begins nor ends in a blank stays, whatever stands around it. -/
theorem trimmed_around {cs : List Char} (hne : cs ≠ [])
    (hfirst : ∀ c, cs.head? = some c → isBlank c = false)
    (hlast : ∀ c, cs.getLast? = some c → isBlank c = false) (before after : List Char) :
    trimmed (before ++ cs ++ after) = trimStart before ++ cs ++ trimEnd after := by
  have hstart : trimStart (before ++ cs ++ after) = trimStart before ++ cs ++ after := by
    obtain ⟨c, more, rfl⟩ := List.exists_cons_of_ne_nil hne
    have hc : trimStart (c :: more ++ after) = c :: more ++ after := by
      simp [trimStart, hfirst c rfl]
    rw [List.append_assoc, trimStart_append, hc]
    split
    · rename_i hbefore
      rw [hbefore]
      rfl
    · rw [List.append_assoc]
  have hend : trimEnd (trimStart before ++ cs) = trimStart before ++ cs :=
    trimEnd_eq_self fun c hc => by
      rw [List.getLast?_append, List.getLast?_eq_some_getLast hne, Option.some_or,
        ← List.getLast?_eq_some_getLast hne] at hc
      exact hlast c hc
  rw [trimmed, hstart, trimEnd_append, hend]
  split
  · rename_i hafter
    rw [hafter, List.append_nil]
  · rfl

/-- A blank inside a text is dropped with what stands before or behind it, or it stays; which of
them does not depend on the blank. -/
theorem trimmed_blank (before after : List Char) :
    (∀ c, isBlank c → trimmed (before ++ c :: after) = trimmed after) ∨
      (∀ c, isBlank c → trimmed (before ++ c :: after) = trimmed before) ∨
      ∃ cs ds, cs ≠ [] ∧ ∀ c, isBlank c → trimmed (before ++ c :: after) = cs ++ c :: ds := by
  have hstart : ∀ c, isBlank c → trimStart (c :: after) = trimStart after := fun c hc => by
    simp [trimStart, hc]
  have hend : ∀ c, isBlank c →
      trimEnd (c :: after) = if trimEnd after = [] then [] else c :: trimEnd after := by
    intro c hc
    rw [trimEnd]
    cases trimEnd after with
    | nil => simp [hc]
    | cons d ds => rfl
  by_cases hbefore : trimStart before = []
  · refine .inl fun c hc => ?_
    rw [trimmed, trimStart_append, if_pos hbefore, hstart c hc, trimmed]
  by_cases hafter : trimEnd after = []
  · refine .inr (.inl fun c hc => ?_)
    rw [trimmed, trimStart_append, if_neg hbefore, trimEnd_append, hend c hc, if_pos hafter,
      if_pos rfl, trimmed]
  · refine .inr (.inr ⟨trimStart before, trimEnd after, hbefore, fun c hc => ?_⟩)
    rw [trimmed, trimStart_append, if_neg hbefore, trimEnd_append, hend c hc, if_neg hafter,
      if_neg (List.cons_ne_nil _ _)]

end SchemaChange.Text
