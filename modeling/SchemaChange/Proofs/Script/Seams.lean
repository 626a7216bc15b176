import SchemaChange.Proofs.Script.RangeScan

/-!
# Seams of a text

A character that is part of no code keeps what stands behind it from taking part in the ranges
before it. So the ranges of a text do not change when something else is put behind it, and what
lies outside every range can be exchanged without moving any of them.
-/
namespace SchemaChange.Script

/-- The character is part of no code of the ranges. -/
def Foreign (ranges : List Range) (c : Char) : Prop :=
  ∀ r ∈ ranges, c ∉ r.opening.chars ∧ c ∉ r.closing

instance (ranges : List Range) : DecidablePred (Foreign ranges) := fun c =>
  inferInstanceAs (Decidable (∀ r ∈ ranges, c ∉ r.opening.chars ∧ c ∉ r.closing))

section Foreign

variable {ranges stack : List Range} {c : Char}

theorem confined_of_foreign {pattern : List Char} (hc : c ∉ pattern) (cs : List Char) :
    Confined pattern (c :: cs) := by
  intro line
  rw [Bool.eq_iff_iff, List.isPrefixOf_iff_prefix, List.isPrefixOf_iff_prefix]
  exact Text.prefix_append_cons_iff hc cs

theorem foreign_of_all {cs : List Char} (h : cs.all fun c => decide (Foreign ranges c)) :
    ∀ c ∈ cs, Foreign ranges c := fun c hc => of_decide_eq_true (List.all_eq_true.1 h c hc)

theorem Foreign.confined (hc : Foreign ranges c) (cs : List Char) :
    ∀ r ∈ ranges, r.Confined (c :: cs) := fun r hr =>
  ⟨confined_of_foreign (hc r hr).1 cs, confined_of_foreign (hc r hr).2 cs⟩

theorem foreign_semicolon (d : Dialect) : Foreign d.splitter.ranges ';' := by
  cases d <;> decide

theorem foreign_newline (hranges : ∀ r ∈ ranges, r.WithinLines) : Foreign ranges '\n' :=
  fun r hr => ⟨(hranges r hr).opening, (hranges r hr).closing⟩

/-- No code begins with a foreign character. -/
theorem not_isPrefixOf_foreign {code : Code} (hc : c ∉ code.chars) (cs : List Char) :
    code.chars.isPrefixOf (c :: cs) = false := by
  cases hcode : code.chars with
  | nil => exact absurd hcode code.ne_nil
  | cons d more =>
      rw [hcode] at hc
      have hne : d ≠ c := fun he => hc (by simp [he])
      simp [List.isPrefixOf, hne]

/-- A foreign character is copied, unless it is the line break that ends a line comment. -/
theorem move_foreign (hc : Foreign ranges c) (hopen : ∀ r ∈ stack, r ∈ ranges)
    (hbreak : c = '\n' → ∀ code atLineStart outer,
      stack ≠ .lineComment code atLineStart :: outer) (cs : List Char) :
    move ranges stack (c :: cs) = ⟨1, stack.head?, stack⟩ := by
  cases stack with
  | nil =>
      have hnone : ranges.find? (fun r => r.opening.chars.isPrefixOf (c :: cs)) = none := by
        refine List.find?_eq_none.2 fun r hr => ?_
        simp [not_isPrefixOf_foreign (hc r hr).1]
      rw [move, hnone]
      rfl
  | cons r outer =>
      obtain ⟨hopening, hclosing⟩ := hc r (hopen r (List.mem_cons_self ..))
      have hop := not_isPrefixOf_foreign hopening cs
      cases r with
      | lineComment code atLineStart =>
          have hne : c ≠ '\n' := fun he => hbreak he code atLineStart outer rfl
          simp [move, moveInside, hne]
      | doubled opening closing | plain opening closing isComment | nesting opening closing =>
          have hcl : closing.chars.isPrefixOf (c :: cs) = false :=
            not_isPrefixOf_foreign hclosing cs
          simp_all [move, moveInside, Range.opening]

theorem tagged_foreign (hc : Foreign ranges c) (hopen : ∀ r ∈ stack, r ∈ ranges)
    (hbreak : c = '\n' → ∀ code atLineStart outer,
      stack ≠ .lineComment code atLineStart :: outer) (cs : List Char) :
    tagged ranges stack (c :: cs) = (c, stack.head?) :: tagged ranges stack cs := by
  rw [tagged_of_ne_nil _ _ (List.cons_ne_nil _ _), move_foreign hc hopen hbreak]
  rfl

/-- Outside every range, foreign characters are copied. -/
theorem tagged_outside {part : List Char} (hpart : ∀ c ∈ part, Foreign ranges c)
    (after : List Char) :
    tagged ranges [] (part ++ after) = part.map (·, none) ++ tagged ranges [] after := by
  induction part with
  | nil => rfl
  | cons c part ih =>
      obtain ⟨hc, hothers⟩ := List.forall_mem_cons.1 hpart
      rw [List.cons_append, tagged_foreign hc (by simp) (by simp), ih hothers]
      rfl

end Foreign

section Behind

variable {ranges stack : List Range} {cs tail : List Char}

/-- Where a range opens does not depend on what stands behind the text. -/
theorem find?_opening_append (htail : ∀ r ∈ ranges, r.Confined tail) (cs : List Char) :
    ranges.find? (fun r => r.opening.chars.isPrefixOf (cs ++ tail)) =
      ranges.find? fun r => r.opening.chars.isPrefixOf cs := by
  induction ranges with
  | nil => rfl
  | cons r ranges ih =>
      obtain ⟨hr, hothers⟩ := List.forall_mem_cons.1 htail
      rw [List.find?_cons, List.find?_cons, hr.opening cs, ih hothers]

theorem length_le_of_isPrefixOf {code : Code} (h : code.chars.isPrefixOf cs = true) :
    code.length ≤ cs.length := (List.isPrefixOf_iff_prefix.1 h).length_le

/-- A move inside a range does not depend on what stands behind the text, nor reach into it. -/
theorem moveInside_append {r : Range} (hr : r.Confined tail) (outer : List Range)
    (hne : cs ≠ []) : moveInside r outer (cs ++ tail) = moveInside r outer cs ∧
      (moveInside r outer cs).taken ≤ cs.length := by
  have hpos : 1 ≤ cs.length := List.length_pos_iff.2 hne
  have hclosing := hr.closing
  have hopening := hr.opening
  cases r with
  | doubled opening closing =>
      simp only [Range.closing] at hclosing
      rw [moveInside, moveInside, hclosing]
      by_cases hcode : closing.chars.isPrefixOf cs = true
      · have hle := length_le_of_isPrefixOf hcode
        rw [drop_line hle, hclosing]
        refine ⟨rfl, ?_⟩
        rw [if_pos hcode]
        split
        · rename_i hpair
          have hpair := length_le_of_isPrefixOf hpair
          rw [List.length_drop] at hpair
          dsimp only
          omega
        · exact hle
      · rw [if_neg hcode, if_neg hcode]
        exact ⟨rfl, hpos⟩
  | plain opening closing isComment =>
      simp only [Range.closing] at hclosing
      rw [moveInside, moveInside, hclosing]
      refine ⟨rfl, ?_⟩
      split
      · exact length_le_of_isPrefixOf ‹_›
      · exact hpos
  | lineComment opening atLineStart =>
      have hhead : (cs ++ tail).head? = cs.head? := by
        rw [List.head?_append, List.head?_eq_some_head hne, Option.some_or]
      rw [moveInside, moveInside, hhead]
      refine ⟨rfl, ?_⟩
      split
      · exact Nat.zero_le _
      · exact hpos
  | nesting opening closing =>
      simp only [Range.closing, Range.opening] at hclosing hopening
      rw [moveInside, moveInside, hclosing, hopening]
      refine ⟨rfl, ?_⟩
      split
      · exact length_le_of_isPrefixOf ‹_›
      · split
        · exact length_le_of_isPrefixOf ‹_›
        · exact hpos

theorem move_append (htail : ∀ r ∈ ranges, r.Confined tail) (hopen : ∀ r ∈ stack, r ∈ ranges)
    (hne : cs ≠ []) : move ranges stack (cs ++ tail) = move ranges stack cs ∧
      (move ranges stack cs).taken ≤ cs.length := by
  cases stack with
  | nil =>
      rw [move, move, find?_opening_append htail]
      refine ⟨rfl, ?_⟩
      split
      · rename_i r hfind
        have hcode := List.find?_some hfind
        exact length_le_of_isPrefixOf hcode
      · exact List.length_pos_iff.2 hne
  | cons r outer =>
      exact moveInside_append (htail r (hopen r (List.mem_cons_self ..))) outer hne

/-- Only ranges of the list are open behind a move. -/
theorem move_stack (hopen : ∀ r ∈ stack, r ∈ ranges) (cs : List Char) :
    ∀ r ∈ (move ranges stack cs).stack, r ∈ ranges := by
  cases stack with
  | nil =>
      rw [move]
      split
      · rename_i r hr
        simpa using List.mem_of_find?_eq_some hr
      · simp
  | cons r outer =>
      obtain ⟨hr, houter⟩ := List.forall_mem_cons.1 hopen
      cases r <;> simp only [move, moveInside] <;> split_ifs <;> simp_all

/-- The ranges of a text and what is open behind it do not depend on what follows. -/
theorem exists_tagged_append (hopen : ∀ r ∈ stack, r ∈ ranges) (cs : List Char) :
    ∃ tags left, (∀ r ∈ left, r ∈ ranges) ∧ ∀ tail, (∀ r ∈ ranges, r.Confined tail) →
      tagged ranges stack (cs ++ tail) = tags ++ tagged ranges left tail := by
  fun_induction tagged ranges stack cs with
  | case1 stack => exact ⟨[], stack, hopen, fun tail _ => rfl⟩
  | case2 stack cs hne m ih =>
      obtain ⟨tags, left, hleft, htags⟩ := ih (move_stack hopen cs)
      refine ⟨(cs.take m.taken).map (·, m.range) ++ tags, left, hleft, fun tail htail => ?_⟩
      obtain ⟨hmove, hle⟩ := move_append htail hopen hne
      rw [tagged_of_ne_nil _ _ (by simp [hne]), hmove, List.take_append_of_le_length hle,
        drop_line hle, htags tail htail, List.append_assoc]

/-- Before a foreign character outside every range, the text ends outside every range,
whatever stands behind it. -/
theorem tagged_before {before after : List Char} {c : Char}
    {tags tags' : List (Char × Option Range)}
    (hc : Foreign ranges c) (hbreak : c ≠ '\n')
    (h : tagged ranges [] (before ++ c :: after) = tags ++ (c, none) :: tags')
    (hlength : tags.length = before.length) (htail : ∀ r ∈ ranges, r.Confined tail) :
    tagged ranges [] (before ++ tail) = tags ++ tagged ranges [] tail := by
  have hclosed : ∀ r ∈ ([] : List Range), r ∈ ranges := by simp
  obtain ⟨read, left, hleft, hread⟩ := exists_tagged_append hclosed before
  have hchars := tagged_chars ranges [] (before ++ [])
  rw [hread [] fun r _ => r.confined_nil, tagged_nil, List.append_nil,
    List.append_nil] at hchars
  have hsame : read.length = tags.length := by
    rw [hlength, ← congrArg List.length hchars, List.length_map]
  rw [hread _ (hc.confined after), tagged_foreign hc hleft fun he => absurd he hbreak] at h
  obtain ⟨rfl, hbehind⟩ := List.append_inj h hsame
  have hnone : left.head? = none := congrArg Prod.snd (List.cons.inj hbehind).1
  obtain rfl : left = [] := List.head?_eq_none_iff.1 hnone
  exact hread tail htail

end Behind

end SchemaChange.Script
