import SchemaChange.Proofs.Script.Standing

/-!
# Excerpts of a script

A text between two semicolons outside the ranges has the ranges that it has by itself, and so has
what is left of a text when the blanks on both sides are dropped. Neither cutting nor trimming
moves the end of any range.
-/
namespace SchemaChange.Script

section Between

variable {ranges : List Range} {c : Char} {cs : List Char}
  {tags before after : List (Char × Option Range)}

/-- A foreign character outside the ranges parts a text into two that are read by themselves. -/
theorem tagged_parts (hc : Foreign ranges c) (hbreak : c ≠ '\n')
    (h : tagged ranges [] cs = before ++ (c, none) :: after) :
    tagged ranges [] (before.map Prod.fst) = before ∧
      tagged ranges [] (after.map Prod.fst) = after := by
  have hcs : cs = before.map Prod.fst ++ c :: after.map Prod.fst := by
    rw [← tagged_chars ranges [] cs, h, List.map_append, List.map_cons]
  rw [hcs] at h
  have hlength : before.length = (before.map Prod.fst).length := (List.length_map _).symm
  constructor
  · have hnone := tagged_before hc hbreak h hlength fun r _ => r.confined_nil
    rwa [tagged_nil, List.append_nil, List.append_nil] at hnone
  · have hrest := tagged_before hc hbreak h hlength (hc.confined (after.map Prod.fst))
    rw [h, tagged_foreign hc (by simp) (by simp)] at hrest
    exact (List.cons.inj (List.append_cancel_left hrest)).2.symm

/-- A part between foreign characters outside the ranges is read by itself as in the text. -/
theorem tagged_of_mem_splitOn (hc : Foreign ranges c) (hbreak : c ≠ '\n')
    (h : tags ∈ Text.splitOn (c, none) (tagged ranges [] cs)) :
    tagged ranges [] (tags.map Prod.fst) = tags := by
  obtain ⟨before, after, hcs, hbefore, hafter⟩ := Text.exists_of_mem_splitOn h
  -- the text behind the character before the part, then that before the character behind it
  have hfront : tagged ranges [] ((tags ++ after).map Prod.fst) = tags ++ after := by
    rcases hbefore with rfl | hlast
    · rw [List.nil_append] at hcs
      rw [← hcs, tagged_chars]
    · obtain ⟨init, rfl⟩ := List.getLast?_eq_some_iff.1 hlast
      rw [List.append_assoc, List.append_assoc] at hcs
      exact (tagged_parts hc hbreak hcs).2
  cases after with
  | nil => simpa using hfront
  | cons tag after =>
      obtain rfl : tag = (c, none) := by simpa using hafter
      exact (tagged_parts hc hbreak hfront).1

end Between

/-- Blanks are no part of the codes of any range. -/
theorem foreign_blank (d : Dialect) {c : Char} (hc : Text.isBlank c) :
    Foreign d.splitter.ranges c := by
  have hcodes : ∀ r ∈ d.splitter.ranges,
      (r.opening.chars ++ r.closing).all (!Text.isBlank ·) = true := by
    cases d <;> decide
  intro r hr
  have hcode : ∀ c' ∈ r.opening.chars ++ r.closing, Text.isBlank c' = false := fun c' hc' => by
    simpa using List.all_eq_true.1 (hcodes r hr) c' hc'
  constructor
  · intro hmem
    simp [hcode c (List.mem_append_left _ hmem)] at hc
  · intro hmem
    simp [hcode c (List.mem_append_right _ hmem)] at hc

/-- Trimming a text moves no range. -/
theorem exists_tagged_trimmed (d : Dialect) (cs : List Char) :
    ∃ (lead : List Char) (trail : List (Char × Option Range)),
      (∀ c ∈ lead, Text.isBlank c) ∧ (∀ tag ∈ trail, Text.isBlank tag.1) ∧
      tagged d.splitter.ranges [] cs =
        lead.map (·, none) ++ (tagged d.splitter.ranges [] (Text.trimmed cs) ++ trail) := by
  obtain ⟨lead, trail, hcs, hlead, htrail⟩ := Text.exists_trimmed cs
  have hclosed : ∀ r ∈ ([] : List Range), r ∈ d.splitter.ranges := by simp
  obtain ⟨tags, left, -, hread⟩ := exists_tagged_append hclosed (Text.trimmed cs)
  have hcore := hread [] fun r _ => r.confined_nil
  rw [tagged_nil, List.append_nil, List.append_nil] at hcore
  have hconfined : ∀ r ∈ d.splitter.ranges, r.Confined trail := by
    cases trail with
    | nil => exact fun r _ => r.confined_nil
    | cons c trail => exact (foreign_blank d (htrail c (List.mem_cons_self ..))).confined trail
  refine ⟨lead, tagged d.splitter.ranges left trail, hlead, fun tag htag => ?_, ?_⟩
  · have hmem := List.mem_map_of_mem (f := Prod.fst) htag
    rw [tagged_chars] at hmem
    exact htrail tag.1 hmem
  · refine (congrArg (tagged d.splitter.ranges []) hcs).trans ?_
    rw [List.append_assoc, tagged_outside fun c hc => foreign_blank d (hlead c hc),
      hread trail hconfined, hcore]

end SchemaChange.Script
