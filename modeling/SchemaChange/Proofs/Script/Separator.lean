import SchemaChange.Proofs.Text.Blank
import SchemaChange.Script.Separator

/-!
# What separators are

Whatever a separator search reports is there: a semicolon at the reported place, or a whole
line of the sort that the convention asks for. The form of a GO line is stated here on its
own, part by part.
-/
namespace SchemaChange.Script

/-- A line of blanks, the word GO in any case, perhaps digits apart from it, blanks, and
perhaps a comment. The digits say how many runs are asked for. -/
structure GoLine (line : List Char) (count : Nat) : Prop where
  parts : ∃ lead g o gap digits trail comment,
    line = lead ++ g :: o :: (gap ++ digits ++ trail) ++ comment ∧
    (∀ c ∈ lead ++ gap ++ trail, Text.isBlank c) ∧ g.toUpper = 'G' ∧ o.toUpper = 'O' ∧
    (∀ c ∈ digits, Text.isDigit c) ∧ (digits ≠ [] → gap ≠ []) ∧
    (comment = [] ∨ ['-', '-'] <+: comment) ∧ count = repeatCount digits

theorem goLine_of_goCount? {text comment : List Char} {count : Nat}
    (h : goCount? text = some count) (hc : comment = [] ∨ ['-', '-'] <+: comment) :
    GoLine (text ++ comment) count := by
  obtain ⟨lead, trail, htext, hlead, htrail⟩ := Text.exists_trimmed text
  unfold goCount? at h
  split at h
  · rename_i g o rest hgo
    simp only [Option.ite_none_right_eq_some, Option.some.injEq] at h
    obtain ⟨⟨hg, ho, hrest⟩, rfl⟩ := h
    obtain ⟨gap, hgap, hblank⟩ := Text.exists_trimStart rest
    rw [hgo] at htext
    refine ⟨lead, g, o, gap, Text.trimStart rest, trail, comment, ?_, ?_, hg, ho, ?_, ?_, hc, rfl⟩
    · rw [← hgap, htext]
      simp
    · intro c hmem
      simp only [List.mem_append] at hmem
      rcases hmem with (hmem | hmem) | hmem
      · exact hlead c hmem
      · exact hblank c hmem
      · exact htrail c hmem
    · rcases hrest with rfl | ⟨-, -, hdigits⟩
      · simp [Text.trimStart]
      · exact List.all_eq_true.1 hdigits
    · rcases hrest with rfl | ⟨happart, -, -⟩
      · simp [Text.trimStart]
      · rintro - rfl
        rw [List.nil_append] at hgap
        exact absurd happart (by rw [← hgap]; omega)
  · cases h

theorem isWordChar_of_isWordStart {c : Char} (h : isWordStart c) : isWordChar c := by
  simp only [isWordStart, isWordChar, Char.isAlphanum, Bool.or_eq_true] at *
  rcases h with h | h <;> simp [h]

theorem isBlank_of_isWordStart {c : Char} (h : isWordStart c) : Text.isBlank c = false := by
  have hrange : 65 ≤ c.toNat ∧ c.toNat ≤ 122 := by
    obtain hletter | hunderscore := Bool.or_eq_true_iff.1 h
    · obtain hupper | hlower := Bool.or_eq_true_iff.1 hletter
      · have hcapital : 65 ≤ c.toNat ∧ c.toNat ≤ 90 := of_decide_eq_true hupper
        omega
      · have hsmall : 97 ≤ c.toNat ∧ c.toNat ≤ 122 :=
          (Bool.and_eq_true_iff.1 hlower).imp of_decide_eq_true of_decide_eq_true
        omega
    · obtain rfl := eq_of_beq hunderscore
      decide
  simp only [Text.isBlank, Bool.or_eq_false_iff, Bool.and_eq_false_iff, beq_eq_false_iff_ne,
    decide_eq_false_iff_not]
  omega

theorem takeWord_length_pos {c : Char} (h : isWordStart c) (cs : List Char) :
    0 < (takeWord (c :: cs)).2 := by
  simp [takeWord, isWordChar_of_isWordStart h]

/-- Words are followed up to a semicolon in a closed state. -/
theorem followWords_eq_some {s s' : BlockState} {previous : Option Char} {cs : List Char}
    {n : Nat} (h : followWords s previous cs = (s', some n)) :
    cs[n]? = some ';' ∧ s'.isClosed := by
  fun_induction followWords s previous cs generalizing s' n with
  | case1 => cases h
  | case2 s previous c rest hc =>
      cases h
      simpa using hc
  | case3 s previous c rest hc hstart word length hword following next joined hread taken
      s₁ found =>
      rename_i hrest ih
      obtain ⟨k, hk, rfl⟩ := Option.map_eq_some_iff.1 (congrArg Prod.snd h)
      obtain rfl : s₁ = s' := congrArg Prod.fst h
      have htaken : 1 ≤ taken := by
        have hpos : 0 < length := by
          have := takeWord_length_pos (Bool.and_eq_true_iff.1 hstart).1 rest
          rwa [hword] at this
        simp only [taken]
        split <;> omega
      obtain ⟨hsemi, hclosed⟩ := ih (by rw [hrest, hk])
      rw [List.getElem?_drop] at hsemi
      refine ⟨?_, hclosed⟩
      rwa [show taken + k = (taken - 1 + k) + 1 by omega, List.getElem?_cons_succ]
  | case4 s previous c rest hc hstart s₁ found hrest ih =>
      obtain ⟨k, hk, rfl⟩ := Option.map_eq_some_iff.1 (congrArg Prod.snd h)
      obtain rfl : s₁ = s' := congrArg Prod.fst h
      obtain ⟨hsemi, hclosed⟩ := ih (by rw [hrest, hk])
      exact ⟨by rwa [Nat.add_comm, List.getElem?_cons_succ], hclosed⟩

/-- A mark is a semicolon of the text, and only the convention of blocks keeps it. -/
theorem find_mark {separator : Separator} {s s' : BlockState} {p : Plain} {n : Nat}
    {kept : Bool} (h : separator.find s p = (s', some (.mark n kept))) :
    p.text[n]? = some ';' ∧ separator ≠ .go ∧ (kept → separator = .blocks) := by
  cases separator with
  | go =>
      simp only [Separator.find, findGo?] at h
      split at h <;> simp at h
  | semicolon =>
      obtain ⟨k, hk, he⟩ := Option.map_eq_some_iff.1 (congrArg Prod.snd h)
      cases he
      obtain ⟨hlt, hsemi, -⟩ := List.findIdx?_eq_some_iff_getElem.1 hk
      exact ⟨by simpa [List.getElem?_eq_getElem hlt] using hsemi, by simp, by simp⟩
  | blocks =>
      simp only [Separator.find, findOutsideBlocks] at h
      split at h
      · simp at h
      · split at h
        · rename_i hf
          cases h
          exact ⟨(followWords_eq_some hf).1, by simp, by simp⟩
        · simp at h

/-- A token that is a whole line is found at its start: a GO line up to a comment, or a
slash with nothing but blanks. -/
theorem find_wholeLine {separator : Separator} {s s' : BlockState} {p : Plain}
    {kind : BatchKind} (h : separator.find s p = (s', some (.wholeLine kind))) :
    p.passed = [] ∧
      ((separator = .go ∧ ∃ count, goCount? p.text = some count ∧ kind = .separator count ∧
          (p.after = [] ∨ ['-', '-'] <+: p.after)) ∨
        (separator = .blocks ∧ s' = {} ∧ kind = .statement ∧ p.after = [] ∧
          Text.trimmed p.text = ['/'])) := by
  cases separator with
  | go =>
      simp only [Separator.find, findGo?] at h
      split at h
      · rename_i hline
        obtain ⟨count, hcount, he⟩ := Option.map_eq_some_iff.1 (congrArg Prod.snd h)
        cases he
        simp only [Bool.and_eq_true, Bool.or_eq_true, List.isEmpty_iff,
          List.isPrefixOf_iff_prefix] at hline
        exact ⟨hline.1, .inl ⟨rfl, count, hcount, rfl, hline.2⟩⟩
      · simp at h
  | semicolon =>
      simp only [Separator.find, findSemicolon?] at h
      simp [Option.map_eq_some_iff] at h
  | blocks =>
      simp only [Separator.find, findOutsideBlocks] at h
      split at h
      · rename_i hline
        cases h
        simp only [Bool.and_eq_true, List.isEmpty_iff, beq_iff_eq] at hline
        exact ⟨hline.1.1, .inr ⟨rfl, rfl, rfl, hline.1.2, hline.2⟩⟩
      · split at h <;> simp at h

end SchemaChange.Script
