import SchemaChange.Proofs.Script.Boundary
import SchemaChange.Proofs.Script.Exchange

/-!
# Scripts of one statement

A script whose first end of a statement is its last character is one batch, whatever its strings,
names and comments hold. No line of it may be a lone slash; where no slash stands outside the
ranges, none is.
-/
namespace SchemaChange.Script

section Lines

variable {line tags : List (Char × Option Range)} {lines : List (List (Char × Option Range))}

/-- The lexemes of several lines are those of each. -/
theorem spelled_lines (hline : '\n' ∉ outside line) (hlines : ∀ l ∈ lines, '\n' ∉ outside l)
    (previous : Option Char) : spelled previous (line ++ lines.flatMap (('\n', none) :: ·)) =
      spelled previous line ++
        lines.flatMap fun l => .lexeme .other ['\n'] none :: spelled none l := by
  induction lines generalizing previous line with
  | nil => simp
  | cons next lines ih =>
      obtain ⟨hnext, hothers⟩ := List.forall_mem_cons.1 hlines
      have hbreak : ∀ more : List (Char × Option Range),
          spelled (some '\n') more = spelled none more :=
        spelled_congr (by decide) (by decide)
      have hbehind := ih hnext hothers none
      rw [List.flatMap_cons, spelled_append hline (.inr rfl) fun _ => rfl, List.cons_append,
        spelled_other (by decide) (by decide), show shown ('\n', none) = '\n' from rfl, hbreak,
        hbehind, List.flatMap_cons]
      rfl

/-- Where no line is a lone slash, the items of a script are its lexemes. -/
theorem scriptItems_of_unslashed
    (h : ∀ l ∈ Text.splitOn ('\n', none) tags, Text.trimmed (outside l) ≠ ['/']) :
    scriptItems tags = spelled none tags := by
  obtain ⟨line, lines, hsplit⟩ := Text.exists_splitOn ('\n', none) tags
  have hflat := Text.splitOn_flatten hsplit
  have hpart : ∀ l ∈ line :: lines, '\n' ∉ outside l ∧ lineItems l = spelled none l := fun l hl =>
    ⟨newline_not_mem_line hsplit hl, if_neg (h l (hsplit ▸ hl))⟩
  obtain ⟨⟨hline, hfirst⟩, hothers⟩ := List.forall_mem_cons.1 hpart
  have hlater : laterItems lines =
      lines.flatMap fun l => .lexeme .other ['\n'] none :: spelled none l := by
    rw [laterItems]
    refine congrArg List.flatten (List.map_congr_left fun l hl => ?_)
    rw [(hothers l hl).2]
  rw [scriptItems_eq hsplit, hfirst, hlater,
    ← spelled_lines hline (fun l hl => (hothers l hl).1) none, ← hflat]

/-- Where no slash stands outside the ranges, no line is a lone one. -/
theorem scriptItems_of_not_mem (h : '/' ∉ outside tags) : scriptItems tags = spelled none tags := by
  refine scriptItems_of_unslashed fun l hl hslash => h ?_
  obtain ⟨before, after, htags, -, -⟩ := Text.exists_of_mem_splitOn hl
  have hmem : '/' ∈ outside l := by
    obtain ⟨lead, trail, hl', -⟩ := Text.exists_trimmed (outside l)
    rw [hl', hslash]
    simp
  rw [htags, outside_append, outside_append]
  exact List.mem_append_left _ (List.mem_append_right _ hmem)

end Lines

/-- The characters of an item with their range. -/
def Item.tagged : Item → List (Char × Option Range)
  | .lexeme _ chars range => chars.map (·, range)
  | .slashLine chars => chars.map (·, none)

section Items

variable {s s' : BlockState} {items : List Item}

/-- Every item of a text is a lexeme, and a semicolon is one by itself. -/
def Item.isSpelled (item : Item) : Prop :=
  ∃ l chars range, item = .lexeme l chars range ∧ (l = .semicolon → chars = [';'] ∧ range = none)

theorem eq_of_leading_semicolon {previous : Option Char} {c : Char} {rest : List Char} {n : Nat}
    (h : leading previous c rest = (.semicolon, n)) : c = ';' ∧ n = 1 := by
  rw [leading] at h
  split at h
  · rename_i hc
    cases h
    exact ⟨hc, rfl⟩
  · split at h
    · dsimp only at h
      split at h
      · cases h
      · split at h <;> cases h
    · cases h

theorem isSpelled_of_mem_spelled (previous : Option Char) (tags : List (Char × Option Range)) :
    ∀ item ∈ spelled previous tags, item.isSpelled := by
  match tags with
  | [] => simp
  | tag :: rest =>
      rcases hleading : leading previous (shown tag) (outside rest) with ⟨l, n⟩
      rw [spelled_cons previous tag rest hleading]
      refine List.forall_mem_cons.2 ⟨⟨l, _, _, rfl, ?_⟩, isSpelled_of_mem_spelled _ _⟩
      rintro rfl
      obtain ⟨hshown, rfl⟩ := eq_of_leading_semicolon hleading
      obtain ⟨c, range⟩ := tag
      cases range with
      | none =>
          obtain rfl : c = ';' := hshown
          exact ⟨rfl, rfl⟩
      | some r => exact absurd hshown (show '"' ≠ ';' by decide)
termination_by tags.length
decreasing_by
  simp only [List.length_cons, List.length_drop]
  omega

/-- If the first end of a statement is the last item, all items are in one part. -/
theorem taggedParts_of_firstEnd (hspelled : ∀ item ∈ items, item.isSpelled)
    (hend : firstEnd s (items.map Item.kind) = some (s', [])) (hkept : s'.containsBlock) :
    taggedParts (itemEvents s items) =
      ((items.flatMap Item.tagged, .statement), [([], .statement)]) := by
  induction items generalizing s with
  | nil => cases hend
  | cons item items ih =>
      obtain ⟨⟨l, chars, range, rfl, hsemi⟩, hothers⟩ := List.forall_mem_cons.1 hspelled
      rw [List.map_cons, Item.kind] at hend
      by_cases hclosed : l = .semicolon ∧ s.isClosed
      · obtain ⟨rfl, hs⟩ := hclosed
        obtain ⟨rfl, rfl⟩ := hsemi rfl
        rw [firstEnd, if_pos hs] at hend
        obtain ⟨rfl, hnil⟩ := Prod.mk.inj (Option.some.inj hend)
        obtain rfl := List.map_eq_nil_iff.1 hnil
        rw [itemEvents, if_pos ⟨rfl, hs⟩, endOf, if_pos hkept]
        rfl
      · have hnext : firstEnd s (l :: items.map Item.kind) =
            firstEnd (s.read l) (items.map Item.kind) := by
          by_cases hl : l = .semicolon
          · subst hl
            rw [firstEnd, if_neg fun hs => hclosed ⟨rfl, hs⟩]
            rfl
          · exact firstEnd_cons hl s _
        rw [hnext] at hend
        rw [itemEvents, if_neg hclosed, taggedParts_text, ih hothers hend]
        rfl

theorem map_fst_flatMap_tagged (items : List Item) :
    (items.flatMap Item.tagged).map Prod.fst = items.flatMap Item.chars := by
  rw [List.map_flatMap]
  refine congrArg List.flatten (List.map_congr_left fun item _ => ?_)
  cases item with
  | lexeme l chars range => exact (List.map_map ..).trans (List.map_id _)
  | slashLine chars => exact (List.map_map ..).trans (List.map_id _)

end Items

/-- A trimmed script whose first end of a statement is its last character is one batch. -/
theorem split_of_one {sp : Splitter} (hsp : sp.KeepsBlocks) (hstrip : sp.stripComments = false)
    {script : String} {s : BlockState}
    (hslash : '/' ∉ outside (tagged sp.ranges [] script.toList))
    (hend : firstEnd {} (sp.lexemesFrom none [] script.toList) = some (s, []))
    (hkept : s.containsBlock) (htrim : Text.trimmed script.toList = script.toList) :
    sp.split script = [⟨script, .statement⟩] := by
  have hitems := spelled_lexemes none (tagged sp.ranges [] script.toList)
  have hparts : partList (scan sp script.toList) =
      [((spelled none (tagged sp.ranges [] script.toList)).flatMap Item.tagged, .statement),
        ([], .statement)] := by
    rw [partList, taggedParts_scan hsp, scriptItems_of_not_mem hslash,
      taggedParts_of_firstEnd (isSpelled_of_mem_spelled none _) (hitems.1 ▸ hend) hkept]
  have hchars : withoutComments false
      ((spelled none (tagged sp.ranges [] script.toList)).flatMap Item.tagged) =
        script.toList := by
    refine (congrArg (List.map Prod.fst) (List.filter_eq_self.2 fun _ _ => rfl)).trans ?_
    rw [map_fst_flatMap_tagged, hitems.2, tagged_chars]
  have hne : script.toList ≠ [] := by
    intro hnil
    rw [hnil, Splitter.lexemesFrom, tagged_nil, outside_nil, lexemes_nil] at hend
    cases hend
  have hbatch := batchOf?_of_trimmed htrim hne .statement
  rw [String.ofList_toList, ← hchars] at hbatch
  rw [split_eq_partList, hparts, hstrip, List.filterMap_cons]
  dsimp only
  rw [hbatch]
  rfl

end SchemaChange.Script
