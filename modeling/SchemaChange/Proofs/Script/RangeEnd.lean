import SchemaChange.Proofs.Script.Automaton

/-!
# Where ranges end

Searching a line for the end of an open range passes exactly the places at which the automaton
copies a character. What stands behind the line takes no part in it, because the line is the
last one or because no code reaches over a line break.
-/
namespace SchemaChange.Script

/-- The automaton takes some characters inside a range and then has some ranges open. All its
moves but the last one stay in the range. -/
inductive Takes (r : Range) (outer : List Range) : List Char → Nat → List Range → Prop
  | nothing (cs : List Char) : Takes r outer cs 0 (r :: outer)
  | last {cs n next} (hne : cs ≠ []) (hmove : moveInside r outer cs = ⟨n, some r, next⟩) :
      Takes r outer cs n next
  | more {cs n k next} (hne : cs ≠ [])
      (hmove : moveInside r outer cs = ⟨n, some r, r :: outer⟩)
      (others : Takes r outer (cs.drop n) k next) : Takes r outer cs (n + k) next

/-- The characters that are taken inside a range belong to it. -/
theorem Takes.tagged {ranges outer next : List Range} {r : Range} {cs : List Char} {n : Nat}
    (h : Takes r outer cs n next) :
    Script.tagged ranges (r :: outer) cs =
      (cs.take n).map (·, some r) ++ Script.tagged ranges next (cs.drop n) := by
  induction h with
  | nothing cs => rfl
  | last hne hmove => rw [tagged_of_ne_nil _ _ hne, move, hmove]
  | more hne hmove others ih =>
      rw [tagged_of_ne_nil _ _ hne, move, hmove]
      simp only [ih, List.take_add, List.map_append, List.append_assoc, List.drop_drop]

/-- While no code of the range is met, its characters are taken one by one. -/
theorem Takes.quiet {outer next : List Range} {r : Range} {cs : List Char} {n k : Nat}
    (hn : n ≤ cs.length)
    (hquiet : ∀ m < n, moveInside r outer (cs.drop m) = ⟨1, some r, r :: outer⟩)
    (others : Takes r outer (cs.drop n) k next) : Takes r outer cs (n + k) next := by
  induction n generalizing cs with
  | zero => simpa using others
  | succ n ih =>
      have hne : cs ≠ [] := List.length_pos_iff.1 (by omega)
      have hothers : ∀ m < n, moveInside r outer ((cs.drop 1).drop m) =
          ⟨1, some r, r :: outer⟩ := by
        intro m hm
        rw [List.drop_drop, Nat.add_comm]
        exact hquiet (m + 1) (by omega)
      have hlater := ih (by rw [List.length_drop]; omega) hothers
        (by rwa [List.drop_drop, Nat.add_comm])
      rw [Nat.add_right_comm, Nat.add_comm]
      exact .more hne (hquiet 0 (by omega)) hlater

/-- What stands behind a line takes no part in the search for a pattern in it. -/
def Confined (pattern tail : List Char) : Prop :=
  ∀ line : List Char, pattern.isPrefixOf (line ++ tail) = pattern.isPrefixOf line

theorem confined_nil (pattern : List Char) : Confined pattern [] := fun line => by
  rw [List.append_nil]

theorem confined_of_endsLine {pattern tail : List Char} (hp : '\n' ∉ pattern)
    (ht : Text.EndsLine tail) : Confined pattern tail := by
  intro line
  rw [Bool.eq_iff_iff, List.isPrefixOf_iff_prefix, List.isPrefixOf_iff_prefix]
  exact Text.prefix_append_iff hp ht

/-- What stands behind a line takes no part in the codes of a range. -/
structure Range.Confined (r : Range) (tail : List Char) : Prop where
  opening : Script.Confined r.opening.chars tail
  closing : Script.Confined r.closing tail

theorem Range.confined_nil (r : Range) : r.Confined [] :=
  ⟨Script.confined_nil _, Script.confined_nil _⟩

section Codes

theorem findSingle?_eq (code : Code) (cs : List Char) :
    findSingle? code cs = (Text.find? code.chars cs).bind fun n =>
      if code.chars.isPrefixOf (cs.drop (n + code.length)) then
        (findSingle? code ((cs.drop (n + code.length)).drop code.length)).map
          (n + 2 * code.length + ·)
      else some n := by
  rw [findSingle?]
  split
  · rename_i hfind
    rw [hfind, Option.bind_none]
  · rename_i hfind
    rw [hfind, Option.bind_some]

theorem findSingle?_occurs {code : Code} {cs : List Char} {n : Nat}
    (h : findSingle? code cs = some n) : code.chars <+: cs.drop n := by
  fun_induction findSingle? code cs generalizing n with
  | case1 cs hfind => cases h
  | case2 cs k hfind behind hpair =>
      rename_i ih
      obtain ⟨m, hm, rfl⟩ := Option.map_eq_some_iff.1 h
      have hoccurs := ih hm
      rw [List.drop_drop, List.drop_drop] at hoccurs
      rwa [show k + 2 * code.length + m = k + code.length + (code.length + m) by omega]
  | case3 cs k hfind hpair =>
      cases h
      exact (Text.find?_eq_some hfind).1

/-- A closing code stands where the range ends. -/
theorem closing_occurs {r : Range} {cs : List Char} {n : Nat}
    (h : r.findEnd? cs = some (.closes n)) : r.closing <+: cs.drop n := by
  cases r with
  | doubled opening closing =>
      obtain ⟨k, hk, he⟩ := Option.map_eq_some_iff.1 h
      cases he
      exact findSingle?_occurs hk
  | plain opening closing isComment =>
      obtain ⟨k, hk, he⟩ := Option.map_eq_some_iff.1 h
      cases he
      exact (Text.find?_eq_some hk).1
  | lineComment opening atLineStart => exact List.nil_prefix
  | nesting opening closing =>
      simp only [Range.findEnd?] at h
      split at h
      · split at h
        · cases h
        · cases h
          exact (Text.find?_eq_some ‹_›).1
      · cases h
      · cases h
        exact (Text.find?_eq_some ‹_›).1
      · cases h

/-- Only a comment that ends with its line has no closing code. -/
theorem eq_lineComment {r : Range} (h : r.closing = []) :
    ∃ opening atLineStart, r = .lineComment opening atLineStart := by
  cases r with
  | lineComment opening atLineStart => exact ⟨opening, atLineStart, rfl⟩
  | doubled _ closing | plain _ closing _ | nesting _ closing => exact absurd h closing.ne_nil

/-- A range that a line leaves open has a closing code. -/
theorem closing_ne_nil {r : Range} {cs : List Char} {next : Option Ending}
    (hend : r.findEnd? cs = next) (h : ∀ n, next ≠ some (.closes n)) : r.closing ≠ [] := by
  intro hclosing
  obtain ⟨opening, atLineStart, rfl⟩ := eq_lineComment hclosing
  exact h cs.length hend.symm

/-- The end of a range lies in its line. -/
theorem closing_le {r : Range} {cs : List Char} {n : Nat}
    (h : r.findEnd? cs = some (.closes n)) : n + r.closing.length ≤ cs.length := by
  have hoccurs := (closing_occurs h).length_le
  rw [List.length_drop] at hoccurs
  by_cases hne : r.closing = []
  · obtain ⟨opening, atLineStart, rfl⟩ := eq_lineComment hne
    cases h
    simp [Range.closing]
  · have := List.length_pos_iff.2 hne
    omega

/-- An opening code stands where the range opens inside itself. -/
theorem nesting_occurs {r : Range} {cs : List Char} {n : Nat}
    (h : r.findEnd? cs = some (.nests n)) : r.opening.chars <+: cs.drop n := by
  cases r with
  | doubled _ closing | plain _ closing _ | lineComment _ _ => simp [Range.findEnd?] at h
  | nesting opening closing =>
      simp only [Range.findEnd?] at h
      split at h
      · split at h
        · cases h
          exact (Text.find?_eq_some ‹_›).1
        · cases h
      · cases h
        exact (Text.find?_eq_some ‹_›).1
      · cases h
      · cases h

theorem nesting_le {r : Range} {cs : List Char} {n : Nat}
    (h : r.findEnd? cs = some (.nests n)) : n + r.opening.length ≤ cs.length := by
  have hle := (nesting_occurs h).length_le
  have hpos := r.opening.length_pos
  rw [List.length_drop] at hle
  simp only [Code.length] at *
  omega

end Codes

section Ends

variable {outer : List Range} {line tail pattern : List Char}

theorem drop_line {m : Nat} (hm : m ≤ line.length) :
    (line ++ tail).drop m = line.drop m ++ tail :=
  List.drop_append_of_le_length hm

theorem Confined.not_occurs (h : Confined pattern tail) {m : Nat}
    (hm : ¬ pattern <+: line.drop m) : pattern.isPrefixOf (line.drop m ++ tail) = false := by
  rw [h, Bool.eq_false_iff, Ne, List.isPrefixOf_iff_prefix]
  exact hm

theorem Confined.occurs (h : Confined pattern tail) {m : Nat} (hm : pattern <+: line.drop m) :
    pattern.isPrefixOf (line.drop m ++ tail) = true := by
  rwa [h, List.isPrefixOf_iff_prefix]

/-- The characters of a line are taken up to a place at which one more move is made. -/
theorem takes_line {r : Range} {next : List Range} {n k : Nat} (hn : n < line.length)
    (hquiet : ∀ m < n, moveInside r outer (line.drop m ++ tail) = ⟨1, some r, r :: outer⟩)
    (hmove : moveInside r outer (line.drop n ++ tail) = ⟨k, some r, next⟩) :
    Takes r outer (line ++ tail) (n + k) next := by
  have hne : line.drop n ++ tail ≠ [] := by
    simp only [ne_eq, List.append_eq_nil_iff, List.drop_eq_nil_iff]
    omega
  refine .quiet (by simp; omega) (fun m hm => ?_) ?_
  · rw [drop_line (by omega)]
    exact hquiet m hm
  · rw [drop_line (by omega)]
    exact .last hne hmove

/-- All characters of a line are taken. -/
theorem takes_all {r : Range} (hquiet : ∀ m < line.length,
      moveInside r outer (line.drop m ++ tail) = ⟨1, some r, r :: outer⟩) :
    Takes r outer (line ++ tail) line.length (r :: outer) := by
  refine .quiet (by simp) (fun m hm => ?_) (.nothing _)
  rw [drop_line (by omega)]
  exact hquiet m hm

theorem lt_of_occurs (hne : pattern ≠ []) {n : Nat} (h : pattern <+: line.drop n) :
    n < line.length := by
  have hle := h.length_le
  have := List.length_pos_iff.2 hne
  rw [List.length_drop] at hle
  omega

/-- A doubled range is left where the search ends, and pairs before are skipped. -/
theorem takes_findSingle? {closing : Code} (hc : Confined closing.chars tail) (opening : Code)
    (outer : List Range) (line : List Char) :
    match findSingle? closing line with
    | some n => Takes (.doubled opening closing) outer (line ++ tail) (n + closing.length) outer
    | none => Takes (.doubled opening closing) outer (line ++ tail) line.length
        (.doubled opening closing :: outer) := by
  fun_induction findSingle? closing line with
  | case1 line hfind =>
      exact takes_all fun m _ => by
        simp [moveInside, hc.not_occurs (Text.find?_eq_none hfind m)]
  | case2 line n hfind behind hpair ih =>
      obtain ⟨hfound, hbefore⟩ := Text.find?_eq_some hfind
      have hpair' : closing.chars <+: line.drop (n + closing.length) :=
        List.isPrefixOf_iff_prefix.1 hpair
      have hlt := lt_of_occurs closing.ne_nil hpair'
      have hle := hpair'.length_le
      have hskip : moveInside (.doubled opening closing) outer (line.drop n ++ tail) =
          ⟨closing.length + closing.length, some (.doubled opening closing),
            .doubled opening closing :: outer⟩ := by
        rw [moveInside, if_pos (hc.occurs hfound),
          drop_line (by rw [List.length_drop]; omega), List.drop_drop,
          if_pos (hc.occurs hpair')]
      -- the pair and what is taken behind it
      have hbehind : ∀ {k next},
          Takes (.doubled opening closing) outer (behind.drop closing.length ++ tail) k next →
          Takes (.doubled opening closing) outer (line ++ tail)
            (n + (closing.length + closing.length + k)) next := by
        intro k next h
        refine .quiet (by simp; omega) (fun m hm => ?_) ?_
        · rw [drop_line (by omega)]
          simp [moveInside, hc.not_occurs (hbefore m hm)]
        · rw [drop_line (by omega)]
          refine .more ?_ hskip ?_
          · simp only [ne_eq, List.append_eq_nil_iff, List.drop_eq_nil_iff]
            omega
          · rw [drop_line (by simp only [List.length_drop, Code.length] at hle ⊢; omega)]
            rw [List.drop_drop, Nat.add_assoc] at h
            rwa [List.drop_drop]
      cases hnext : findSingle? closing (behind.drop closing.length) with
      | none =>
          rw [hnext] at ih
          have hlength : n + (closing.length + closing.length +
              (behind.drop closing.length).length) = line.length := by
            simp only [List.length_drop, Code.length, behind] at hle ⊢
            omega
          exact hlength ▸ hbehind ih
      | some k =>
          rw [hnext] at ih
          have htaken : n + (closing.length + closing.length + (k + closing.length)) =
              n + 2 * closing.length + k + closing.length := by omega
          have hall := hbehind ih
          rwa [htaken] at hall
  | case3 line n hfind behind hpair =>
      obtain ⟨hfound, hbefore⟩ := Text.find?_eq_some hfind
      have hlt := lt_of_occurs closing.ne_nil hfound
      have hle := hfound.length_le
      refine takes_line hlt (fun m hm => by simp [moveInside, hc.not_occurs (hbefore m hm)]) ?_
      rw [moveInside, if_pos (hc.occurs hfound),
        drop_line (by simpa only [List.length_drop, Code.length] using hle), List.drop_drop,
        if_neg]
      rwa [hc]

/-- Every character up to the end of the line belongs to a line comment. -/
theorem takes_lineComment {opening : Code} {atLineStart : Bool} (hline : '\n' ∉ line) :
    Takes (.lineComment opening atLineStart) outer (line ++ tail) line.length
      (.lineComment opening atLineStart :: outer) := by
  refine takes_all fun m hm => ?_
  have hc : (line)[m] ≠ '\n' := fun h => hline (h ▸ List.getElem_mem hm)
  rw [List.drop_eq_getElem_cons hm, List.cons_append, moveInside, if_neg (by simpa using hc)]

/-- The automaton leaves a range where the line scan sees it close with a code. -/
theorem takes_closes {r : Range} (hr : r.Confined tail) (hclosing : r.closing ≠ []) {n : Nat}
    (hend : r.findEnd? line = some (.closes n)) :
    Takes r outer (line ++ tail) (n + r.closing.length) outer := by
  cases r with
  | doubled opening closing =>
      obtain ⟨k, hk, he⟩ := Option.map_eq_some_iff.1 hend
      cases he
      have h := takes_findSingle? hr.closing opening outer line
      rwa [hk] at h
  | plain opening closing isComment =>
      have hc : Confined closing.chars tail := hr.closing
      obtain ⟨k, hk, he⟩ := Option.map_eq_some_iff.1 hend
      cases he
      obtain ⟨hfound, hbefore⟩ := Text.find?_eq_some hk
      refine takes_line (lt_of_occurs closing.ne_nil hfound)
        (fun m hm => by simp [moveInside, hc.not_occurs (hbefore m hm)]) ?_
      rw [moveInside, if_pos (hc.occurs hfound)]
      rfl
  | lineComment opening atLineStart => exact absurd rfl hclosing
  | nesting opening closing =>
      have hc : Confined closing.chars tail := hr.closing
      have ho : Confined opening.chars tail := hr.opening
      -- no opening code begins before the closing one
      have hclose : Text.find? closing.chars line = some n ∧
          ∀ m < n, ¬ opening.chars <+: line.drop m := by
        simp only [Range.findEnd?] at hend
        split at hend
        · rename_i inner outer hopen hclose
          split at hend
          · cases hend
          · cases hend
            exact ⟨hclose, fun m hm => (Text.find?_eq_some hopen).2 m (by omega)⟩
        · cases hend
        · rename_i outer hopen hclose
          cases hend
          exact ⟨hclose, fun m _ => Text.find?_eq_none hopen m⟩
        · cases hend
      obtain ⟨hclose, hopen⟩ := hclose
      obtain ⟨hfound, hbefore⟩ := Text.find?_eq_some hclose
      refine takes_line (lt_of_occurs closing.ne_nil hfound) (fun m hm => ?_) ?_
      · simp [moveInside, hc.not_occurs (hbefore m hm), ho.not_occurs (hopen m hm)]
      · rw [moveInside, if_pos (hc.occurs hfound)]
        rfl

/-- The automaton goes deeper where the line scan sees the range open again. -/
theorem takes_nests {r : Range} (hr : r.Confined tail) {n : Nat}
    (hend : r.findEnd? line = some (.nests n)) :
    Takes r outer (line ++ tail) (n + r.opening.length) (r :: r :: outer) := by
  cases r with
  | doubled _ closing | plain _ closing _ | lineComment _ _ => simp [Range.findEnd?] at hend
  | nesting opening closing =>
      have hc : Confined closing.chars tail := hr.closing
      have ho : Confined opening.chars tail := hr.opening
      -- no closing code begins up to the opening one
      have hnest : Text.find? opening.chars line = some n ∧
          ∀ m ≤ n, ¬ closing.chars <+: line.drop m := by
        simp only [Range.findEnd?] at hend
        split at hend
        · rename_i inner outer hopen hclose
          split at hend
          · cases hend
            exact ⟨hopen, fun m hm => (Text.find?_eq_some hclose).2 m (by omega)⟩
          · cases hend
        · rename_i inner hopen hclose
          cases hend
          exact ⟨hopen, fun m _ => Text.find?_eq_none hclose m⟩
        · cases hend
        · cases hend
      obtain ⟨hopen, hclose⟩ := hnest
      obtain ⟨hfound, hbefore⟩ := Text.find?_eq_some hopen
      refine takes_line (lt_of_occurs opening.ne_nil hfound) (fun m hm => ?_) ?_
      · simp [moveInside, hc.not_occurs (hclose m (by omega)), ho.not_occurs (hbefore m hm)]
      · simp [moveInside, hc.not_occurs (hclose n (by omega)), ho.occurs hfound, Range.opening]

/-- The automaton stays in the range where the line scan sees no end. -/
theorem takes_stays {r : Range} (hr : r.Confined tail) (hend : r.findEnd? line = none) :
    Takes r outer (line ++ tail) line.length (r :: outer) := by
  cases r with
  | doubled opening closing =>
      have hnone : findSingle? closing line = none := by simpa [Range.findEnd?] using hend
      have h := takes_findSingle? hr.closing opening outer line
      rwa [hnone] at h
  | plain opening closing isComment =>
      have hc : Confined closing.chars tail := hr.closing
      have hnone : Text.find? closing.chars line = none := by
        simpa [Range.findEnd?] using hend
      exact takes_all fun m _ => by
        simp [moveInside, hc.not_occurs (Text.find?_eq_none hnone m)]
  | lineComment opening atLineStart => cases hend
  | nesting opening closing =>
      have hc : Confined closing.chars tail := hr.closing
      have ho : Confined opening.chars tail := hr.opening
      have hnone : Text.find? opening.chars line = none ∧
          Text.find? closing.chars line = none := by
        simp only [Range.findEnd?] at hend
        split at hend
        · split at hend <;> cases hend
        · cases hend
        · cases hend
        · rename_i hopen hclose
          exact ⟨hopen, hclose⟩
      exact takes_all fun m _ => by
        simp [moveInside, hc.not_occurs (Text.find?_eq_none hnone.2 m),
          ho.not_occurs (Text.find?_eq_none hnone.1 m)]

end Ends

end SchemaChange.Script
