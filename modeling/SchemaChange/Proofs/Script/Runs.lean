import Mathlib.Algebra.Ring.Parity
import SchemaChange.Proofs.Script.ByteReader

/-!
# Runs of a mark

Where a mark is written twice to stand for itself, an open range ends at the last mark of the first
run of marks whose length is odd. The search goes over the marks in pairs, and every run begins a
pair of its own, because other characters part it from the run before.
-/
namespace SchemaChange.Script

/-- A run of a mark in a text: all the marks that stand side by side. -/
structure Run (mark : Char) (cs : List Char) where
  lead : List Char
  length : Nat
  after : List Char
  parts : cs = lead ++ (List.replicate length mark ++ after)
  pos : 0 < length
  starts : lead.getLast? ≠ some mark
  ends : after.head? ≠ some mark

section Search

variable {mark : Char}

/-- The search for a mark that stands alone. -/
theorem findSingle?_mark (mark : Char) (cs : List Char) :
    findSingle? (Code.of mark []) cs = (Text.find? [mark] cs).bind fun n =>
      if [mark].isPrefixOf (cs.drop (n + 1)) then
        (findSingle? (Code.of mark []) ((cs.drop (n + 1)).drop 1)).map (n + 2 + ·)
      else some n := findSingle?_eq _ cs

theorem find?_mark (mark : Char) (cs : List Char) : Text.find? [mark] (mark :: cs) = some 0 := by
  rw [Text.find?, if_pos (by simp [List.isPrefixOf])]

/-- A character that is not the mark is passed over. -/
theorem findSingle?_other {c : Char} (hc : c ≠ mark) (cs : List Char) :
    findSingle? (Code.of mark []) (c :: cs) =
      (findSingle? (Code.of mark []) cs).map (1 + ·) := by
  have hfind : Text.find? [mark] (c :: cs) = (Text.find? [mark] cs).map (· + 1) := by
    rw [Text.find?, if_neg (by simp [List.isPrefixOf, Ne.symm hc])]
  rw [findSingle?_mark, hfind, findSingle?_mark mark cs]
  cases Text.find? [mark] cs with
  | none => rfl
  | some n =>
      simp only [Option.map_some, Option.bind_some, List.drop_succ_cons]
      split
      · rw [Option.map_map]
        exact congrArg (Option.map · _) (funext fun k => by simp only [Function.comp_apply]; omega)
      · exact congrArg some (Nat.add_comm n 1)

/-- Two marks side by side are passed over. -/
theorem findSingle?_pair (cs : List Char) :
    findSingle? (Code.of mark []) (mark :: mark :: cs) =
      (findSingle? (Code.of mark []) cs).map (2 + ·) := by
  rw [findSingle?_mark, find?_mark]
  simp

/-- The end is at the first mark that stands alone. -/
theorem findSingle?_lone {cs : List Char} (h : cs.head? ≠ some mark) :
    findSingle? (Code.of mark []) (mark :: cs) = some 0 := by
  rw [findSingle?_mark, find?_mark]
  cases cs with
  | nil => rfl
  | cons c cs =>
      have hc : mark ≠ c := fun he => h (by simp [he])
      simp [hc]

/-- Text without the mark is passed over. -/
theorem findSingle?_append {lead : List Char} (h : mark ∉ lead) (cs : List Char) :
    findSingle? (Code.of mark []) (lead ++ cs) =
      (findSingle? (Code.of mark []) cs).map (lead.length + ·) := by
  induction lead with
  | nil => simp
  | cons c lead ih =>
      obtain ⟨hc, hlead⟩ := not_or.1 (mt List.mem_cons.2 h)
      rw [List.cons_append, findSingle?_other (Ne.symm hc), ih hlead, Option.map_map,
        List.length_cons]
      congr 1
      funext n
      simp only [Function.comp_apply]
      omega

theorem findSingle?_of_not_mem {cs : List Char} (h : mark ∉ cs) :
    findSingle? (Code.of mark []) cs = none := by
  have hall := findSingle?_append h []
  rw [List.append_nil] at hall
  rw [hall, findSingle?_mark]
  rfl

/-- In a run the marks are passed over in pairs, and the last one is left if their number is
odd. -/
theorem findSingle?_replicate {after : List Char} (h : after.head? ≠ some mark) (length : Nat) :
    findSingle? (Code.of mark []) (List.replicate length mark ++ after) =
      if Odd length then some (length - 1)
      else (findSingle? (Code.of mark []) after).map (length + ·) := by
  induction length using Nat.twoStepInduction with
  | zero => simp
  | one => simpa using findSingle?_lone h
  | more length ih _ =>
      have hparity : Odd (length + 2) ↔ Odd length := by
        rw [Nat.odd_add]
        simp
      rw [List.replicate_succ, List.replicate_succ, List.cons_append, List.cons_append,
        findSingle?_pair, ih]
      by_cases hodd : Odd length
      · rw [if_pos hodd, if_pos (hparity.2 hodd), Option.map_some]
        obtain ⟨k, hk⟩ := hodd
        exact congrArg some (by omega)
      · rw [if_neg hodd, if_neg (mt hparity.1 hodd), Option.map_map]
        congr 1
        funext n
        simp only [Function.comp_apply]
        omega

end Search

namespace Run

variable {mark : Char} {cs : List Char}

/-- A text that holds the mark has a run of it with no mark before. -/
theorem exists_first (h : mark ∈ cs) : ∃ run : Run mark cs, mark ∉ run.lead := by
  have exists_leading : ∀ cs : List Char, ∃ length after,
      cs = List.replicate length mark ++ after ∧ after.head? ≠ some mark := by
    intro cs
    induction cs with
    | nil => exact ⟨0, [], rfl, by simp⟩
    | cons c cs ih =>
        obtain ⟨length, after, hcs, hends⟩ := ih
        by_cases hc : c = mark
        · exact ⟨length + 1, after, by rw [hc, hcs, List.replicate_succ, List.cons_append], hends⟩
        · exact ⟨0, c :: cs, rfl, by simpa using hc⟩
  obtain ⟨lead, rest, hcs, hlead⟩ := List.eq_append_cons_of_mem h
  obtain ⟨length, after, hrest, hends⟩ := exists_leading rest
  refine ⟨⟨lead, length + 1, after, ?_, Nat.succ_pos _, ?_, hends⟩, hlead⟩
  · rw [hcs, hrest, List.replicate_succ, List.cons_append]
  · exact fun hlast => hlead (List.mem_of_getLast? hlast)

/-- A run behind another one. -/
def later (first : Run mark cs) (run : Run mark first.after) : Run mark cs where
  lead := first.lead ++ (List.replicate first.length mark ++ run.lead)
  length := run.length
  after := run.after
  parts := by
    have hcs := first.parts
    rw [run.parts] at hcs
    simpa using hcs
  pos := run.pos
  starts := by
    cases hlead : run.lead with
    | nil =>
        -- the two runs would be one
        obtain ⟨k, hk⟩ : ∃ k, run.length = k + 1 := ⟨run.length - 1, by have := run.pos; omega⟩
        have hends := first.ends
        rw [run.parts, hlead, hk, List.replicate_succ] at hends
        exact absurd rfl hends
    | cons c lead =>
        have hstarts := run.starts
        rw [hlead] at hstarts
        simpa [List.getLast?_append, List.getLast?_cons] using hstarts
  ends := run.ends

/-- The same number of marks stands at the same place. -/
theorem length_eq {run other : Run mark cs} (h : run.lead = other.lead) :
    run.length = other.length := by
  have grows : ∀ {run other : Run mark cs}, run.lead = other.lead →
      ¬ run.length < other.length := by
    intro run other h hlt
    have hsame := run.parts.symm.trans other.parts
    obtain ⟨k, hk⟩ : ∃ k, other.length = run.length + (k + 1) :=
      ⟨other.length - run.length - 1, by omega⟩
    rw [h, List.append_cancel_left_eq, hk, ← List.replicate_append_replicate,
      List.append_assoc, List.append_cancel_left_eq] at hsame
    have hends := run.ends
    rw [hsame, List.replicate_succ] at hends
    exact hends rfl
  have hle := Nat.le_of_not_lt (grows h)
  have hge := Nat.le_of_not_lt (grows h.symm)
  exact Nat.le_antisymm hge hle

/-- Every run is the first one or stands behind it. -/
theorem eq_or_later {first : Run mark cs} (hfirst : mark ∉ first.lead) (run : Run mark cs) :
    run.lead = first.lead ∨ ∃ other : Run mark first.after, run.lead = (first.later other).lead ∧
      run.length = other.length := by
  have hmark : mark ∈ List.replicate run.length mark := by
    have := run.pos
    simp [Nat.pos_iff_ne_zero.1 this]
  have hsame := first.parts.symm.trans run.parts
  rcases List.append_eq_append_iff.1 hsame with ⟨between, hlead, hrest⟩ | ⟨between, hlead, hrest⟩
  · rcases List.append_eq_append_iff.1 hrest with ⟨behind, hmarks, hafter⟩ | ⟨behind, hmarks, -⟩
    · right
      have hstarts : behind.getLast? ≠ some mark := by
        intro hlast
        refine run.starts ?_
        rw [hlead, hmarks, List.getLast?_append, List.getLast?_append, hlast]
        rfl
      exact ⟨⟨behind, run.length, run.after, hafter, run.pos, hstarts, run.ends⟩,
        by rw [hlead, hmarks]; rfl, rfl⟩
    · left
      -- marks before the run would belong to it
      cases hbetween : between.getLast? with
      | none => rw [hlead, List.getLast?_eq_none_iff.1 hbetween, List.append_nil]
      | some c =>
          have hc : c ∈ List.replicate first.length mark := by
            rw [hmarks]
            exact List.mem_append_left _ (List.mem_of_getLast? hbetween)
          obtain rfl : c = mark := List.eq_of_mem_replicate hc
          refine absurd ?_ run.starts
          rw [hlead, List.getLast?_append, hbetween]
          rfl
  · left
    cases between with
    | nil => rw [hlead, List.append_nil]
    | cons c between =>
        obtain ⟨k, hk⟩ : ∃ k, run.length = k + 1 := ⟨run.length - 1, by have := run.pos; omega⟩
        rw [hk, List.replicate_succ, List.cons_append, List.cons_append, List.cons.injEq] at hrest
        refine absurd ?_ hfirst
        rw [hlead, ← hrest.1]
        simp

/-- The run is odd in length, and every run before it is even. -/
structure IsFirstOdd (run : Run mark cs) : Prop where
  odd : Odd run.length
  even : ∀ other : Run mark cs, other.lead.length < run.lead.length → Even other.length

/-- The text before the last mark of the run. -/
def upToLast (run : Run mark cs) : List Char :=
  run.lead ++ List.replicate (run.length - 1) mark

theorem length_upToLast (run : Run mark cs) :
    run.upToLast.length = run.lead.length + (run.length - 1) := by simp [upToLast]

theorem upToLast_prefix (run : Run mark cs) : run.upToLast <+: cs := by
  obtain ⟨k, hk⟩ : ∃ k, run.length = k + 1 := ⟨run.length - 1, by have := run.pos; omega⟩
  refine ⟨mark :: run.after, Eq.trans ?_ run.parts.symm⟩
  rw [upToLast, hk, Nat.add_sub_cancel, List.append_assoc, ← List.replicate_append_replicate,
    List.append_assoc]
  rfl

theorem isFirstOdd_of_first {first : Run mark cs} (hfirst : mark ∉ first.lead)
    (hodd : Odd first.length) : first.IsFirstOdd := by
  refine ⟨hodd, fun other hlt => ?_⟩
  rcases eq_or_later hfirst other with hlead | ⟨run, hlead, -⟩
  · rw [hlead] at hlt
    exact absurd hlt (Nat.lt_irrefl _)
  · rw [hlead] at hlt
    simp only [later, List.length_append] at hlt
    omega

theorem IsFirstOdd.later {first : Run mark cs} (hfirst : mark ∉ first.lead)
    (heven : Even first.length) {run : Run mark first.after} (h : run.IsFirstOdd) :
    (first.later run).IsFirstOdd := by
  refine ⟨h.odd, fun other hlt => ?_⟩
  rcases eq_or_later hfirst other with hlead | ⟨other', hlead, hlength⟩
  · rwa [length_eq hlead]
  · rw [hlength]
    refine h.even other' ?_
    rw [hlead] at hlt
    simpa [Run.later] using hlt

end Run

/-- A search for a mark that stands alone ends at the last mark of the first run of odd length, and
finds nothing if there is no such run. -/
theorem findSingle?_runs (mark : Char) (cs : List Char) :
    (∃ run : Run mark cs, run.IsFirstOdd ∧
        findSingle? (Code.of mark []) cs = some run.upToLast.length) ∨
      (∀ run : Run mark cs, Even run.length) ∧ findSingle? (Code.of mark []) cs = none := by
  by_cases hmem : mark ∈ cs
  · obtain ⟨first, hfirst⟩ := Run.exists_first hmem
    have hfind : findSingle? (Code.of mark []) cs = _ :=
      (congrArg _ first.parts).trans ((findSingle?_append hfirst _).trans
        (congrArg _ (findSingle?_replicate first.ends first.length)))
    by_cases hodd : Odd first.length
    · rw [if_pos hodd, Option.map_some, ← first.length_upToLast] at hfind
      exact .inl ⟨first, Run.isFirstOdd_of_first hfirst hodd, hfind⟩
    · have heven : Even first.length := Nat.not_odd_iff_even.1 hodd
      have hshorter : first.after.length < cs.length := by
        have hlength := congrArg List.length first.parts
        have hpos := first.pos
        simp only [List.length_append, List.length_replicate] at hlength
        omega
      rw [if_neg hodd] at hfind
      rcases findSingle?_runs mark first.after with ⟨run, hrun, hlast⟩ | ⟨hruns, hnone⟩
      · refine .inl ⟨first.later run, hrun.later hfirst heven, ?_⟩
        rw [hfind, hlast]
        simp [Run.upToLast, Run.later]
      · refine .inr ⟨fun run => ?_, by rw [hfind, hnone]; rfl⟩
        rcases Run.eq_or_later hfirst run with hlead | ⟨other, -, hlength⟩
        · rwa [Run.length_eq hlead]
        · rw [hlength]
          exact hruns other
  · refine .inr ⟨fun run => absurd ?_ hmem, findSingle?_of_not_mem hmem⟩
    have hpos := run.pos
    rw [run.parts]
    simp [Nat.pos_iff_ne_zero.1 hpos]
termination_by cs.length

/-- From every place of a line the search for the end of a range whose closing mark is doubled comes
to an end. It tells the position of the last mark of the first run of odd length that begins at the
place or behind it, and if all of them are even in length, it finds no end. -/
theorem findEndCode_doubled (opening : Code) (mark : Char) (before rest : List Char) :
    let range := Range.doubled opening (Code.of mark [])
    let reader : LineReader := ⟨before ++ rest, Text.byteLength before⟩
    (∃ run : Run mark rest, run.IsFirstOdd ∧
        range.findEndCode reader = pure (some (.found (Text.byteLength (before ++ run.upToLast)))) ∧
        range.findEnd? rest = some (.closes run.upToLast.length)) ∨
      (∀ run : Run mark rest, Even run.length) ∧ range.findEndCode reader = pure none ∧
        range.findEnd? rest = none := by
  intro range reader
  let c : Cursor := ⟨before.reverse, rest⟩
  have hreader : c.reader = reader := by
    simp [c, reader, Cursor.reader, Cursor.line, Cursor.index, Text.byteLength_reverse]
  have hcode := findEndCode_reader range c
  rw [hreader] at hcode
  rcases findSingle?_runs mark rest with ⟨run, hrun, hlast⟩ | ⟨hruns, hnone⟩
  · have hend : range.findEnd? rest = some (.closes run.upToLast.length) := by
      rw [Range.findEnd?, hlast, Option.map_some]
    have hindex : c.indexAt run.upToLast.length = Text.byteLength (before ++ run.upToLast) := by
      have htake : rest.take run.upToLast.length = run.upToLast :=
        (List.prefix_iff_eq_take.1 run.upToLast_prefix).symm
      simp [c, Cursor.indexAt, Cursor.index, Text.byteLength_reverse, htake]
    refine .inl ⟨run, hrun, ?_, hend⟩
    rw [hcode, hend, Option.map_some, Cursor.endCode, hindex]
  · have hend : range.findEnd? rest = none := by rw [Range.findEnd?, hnone, Option.map_none]
    exact .inr ⟨hruns, by rw [hcode, hend, Option.map_none], hend⟩

end SchemaChange.Script
