import SchemaChange.Proofs.Script.Standing
import SchemaChange.Sql.Join

/-!
# Statements with semicolons between them

Statements that stand for themselves come back when the text that joins them is divided:
each piece is one of them, behind a line break that trimming drops.
-/
namespace SchemaChange.Script

/-- Statements are joined by semicolons and line breaks where none ends in a semicolon. -/
theorem foldl_append {written : List Char} (hne : written ≠ [])
    (hend : (Text.trimEnd written).getLast? ≠ some ';') {statements : List String}
    (hblank : ∀ s ∈ statements, Text.allBlank s = false)
    (hends : ∀ s ∈ statements, (Text.trimEnd s.toList).getLast? ≠ some ';') :
    statements.foldl append written =
      written ++ (statements.map fun s => '\n' :: s.toList).flatMap (';' :: ·) := by
  induction statements generalizing written with
  | nil => simp
  | cons s statements ih =>
      have happend : append written s = written ++ [';', '\n'] ++ s.toList := by
        simp only [append, if_neg hend]
        rw [if_neg (by simp [hne])]
      have hs : Text.trimEnd s.toList ≠ [] := by
        have := hblank s (List.mem_cons_self ..)
        rw [Ne, Text.trimEnd_eq_nil_iff, ← List.all_eq_true]
        simpa [Text.allBlank] using this
      have hend' : (Text.trimEnd (append written s)).getLast? ≠ some ';' := by
        have hlast := hends s (List.mem_cons_self ..)
        rw [happend, Text.trimEnd_append, if_neg hs, List.getLast?_append]
        rw [List.getLast?_eq_some_getLast hs] at hlast ⊢
        exact hlast
      rw [List.foldl_cons, ih (by simp [happend]) hend'
        (fun s' h => hblank s' (List.mem_cons_of_mem _ h))
        (fun s' h => hends s' (List.mem_cons_of_mem _ h)), happend]
      simp

/-- The text is read to its end without a semicolon outside the ranges. -/
def Undivided (d : Dialect) (cs rest : List Char) : Prop :=
  ReadsAs (fun c _ => c != ';') d cs rest

theorem Reads.undivided {d : Dialect} {cs rest : List Char} (h : Reads d cs rest) :
    Undivided d cs rest :=
  ReadsAs.mono (fun _ _ hc => (Bool.and_eq_true_iff.1 hc).1) h

theorem Undivided.newline {d : Dialect} {cs rest : List Char} (h : Undivided d cs rest) :
    Undivided d ('\n' :: cs) rest := by
  obtain ⟨tags, houtside, htags⟩ := h
  refine ⟨('\n', none) :: tags, ⟨fun _ => rfl, houtside⟩, ?_⟩
  rw [List.cons_append, tagged_of_ne_nil _ _ (List.cons_ne_nil _ _),
    move_plain_char d (by decide)]
  simp [htags]

/-- A text that the semicolon behind it ends, and no other: it is read as a whole before a
semicolon or at the end, and its last character other than blanks is no semicolon. -/
structure Severable (d : Dialect) (cs : List Char) : Prop where
  reads : ∀ rest, (∀ c, rest.head? = some c → c = ';') → Undivided d cs rest
  ending : (Text.trimEnd cs).getLast? ≠ some ';'

theorem Standing.severable {d : Dialect} {cs : List Char} (h : Standing d cs) : Severable d cs where
  reads rest hrest := (h.reads rest fun c hc => by rw [hrest c hc]; decide).undivided
  ending := h.ending

/-- A text is cut at the semicolons that stand between texts which are read as wholes. -/
theorem splitOn_tagged {d : Dialect} {cs : List Char} {others : List (List Char)}
    (hcs : ∀ rest, (∀ c, rest.head? = some c → c = ';') → Undivided d cs rest)
    (hothers : ∀ cs ∈ others, ∀ rest, (∀ c, rest.head? = some c → c = ';') →
      Undivided d cs rest) :
    (Text.splitOn (';', none) (tagged d.splitter.ranges []
      (cs ++ others.flatMap (';' :: ·)))).map (·.map Prod.fst) = cs :: others := by
  induction others generalizing cs with
  | nil =>
      obtain ⟨tags, houtside, htags⟩ := hcs [] (by simp)
      have hsemi := houtside.not_mem (c := ';') fun _ => rfl
      have hchars := map_fst_of_tagged htags
      rw [tagged_nil, List.append_nil tags] at htags
      rw [List.flatMap_nil, htags, Text.splitOn_of_not_mem hsemi, List.map_singleton, hchars]
  | cons next others ih =>
      obtain ⟨tags, houtside, htags⟩ :=
        hcs (';' :: (next ++ others.flatMap (';' :: ·))) (by simp)
      have hsemi := houtside.not_mem (c := ';') fun _ => rfl
      obtain ⟨part, parts, hparts⟩ := Text.exists_splitOn (';', none)
        (tagged d.splitter.ranges [] (next ++ others.flatMap (';' :: ·)))
      have hnext := ih (hothers next (List.mem_cons_self ..))
        (fun cs h => hothers cs (List.mem_cons_of_mem _ h))
      rw [hparts] at hnext
      have hcut := Text.splitOn_cons hparts (';', none)
      rw [if_pos rfl] at hcut
      rw [List.flatMap_cons, List.cons_append, htags, tagged_semicolon,
        Text.splitOn_append hsemi hcut]
      simp [map_fst_of_tagged htags, ← hnext]

theorem toList_separated {s : String} {statements : List String}
    (hblank : ∀ s' ∈ s :: statements, Text.allBlank s' = false)
    (hends : ∀ s' ∈ s :: statements, (Text.trimEnd s'.toList).getLast? ≠ some ';') :
    (separated (s :: statements)).toList =
      s.toList ++ (statements.map fun s => '\n' :: s.toList).flatMap (';' :: ·) := by
  have hne : s.toList ≠ [] := by
    intro hnil
    have := hblank s (List.mem_cons_self ..)
    simp [Text.allBlank, hnil] at this
  have hfirst : append [] s = s.toList := rfl
  rw [separated, List.foldl_cons, String.toList_ofList, hfirst,
    foldl_append hne (hends s (List.mem_cons_self ..))
      (fun s' h => hblank s' (List.mem_cons_of_mem _ h))
      fun s' h => hends s' (List.mem_cons_of_mem _ h)]

/-- Texts behind line breaks become batches as they are. -/
theorem filterMap_batchOf? {statements : List String}
    (hblank : ∀ s ∈ statements, Text.allBlank s = false) :
    (statements.map fun s => '\n' :: s.toList).filterMap (batchOf? · .statement) =
      statements.map fun s => ⟨Text.trim s, .statement⟩ := by
  induction statements with
  | nil => rfl
  | cons s statements ih =>
      have hs := batchOf?_of_not_blank (hblank s (List.mem_cons_self ..))
      rw [batchOf?, ← Text.trimmed_cons_blank (c := '\n') (by decide), ← batchOf?] at hs
      rw [List.map_cons, List.filterMap_cons, hs,
        ih fun s' h => hblank s' (List.mem_cons_of_mem _ h)]
      rfl

/-- The batches of joined statements are the statements. -/
theorem Severable.automatonBatches_separated {d : Dialect} {statements : List String}
    (hblank : ∀ s ∈ statements, Text.allBlank s = false)
    (hsevered : ∀ s ∈ statements, Severable d s.toList) :
    automatonBatches d.splitter.ranges (separated statements).toList =
      statements.map fun s => ⟨Text.trim s, .statement⟩ := by
  cases statements with
  | nil => simp [separated, automatonBatches, Text.splitOn, batchOf?, Text.trimmed,
      Text.trimStart, Text.trimEnd]
  | cons s statements =>
      have hothers := fun s' h => hsevered s' (List.mem_cons_of_mem _ h)
      have hreads : ∀ cs ∈ statements.map (fun s => '\n' :: s.toList),
          ∀ rest, (∀ c, rest.head? = some c → c = ';') → Undivided d cs rest := by
        intro cs hcs rest hrest
        obtain ⟨s', hs', rfl⟩ := List.mem_map.1 hcs
        exact ((hothers s' hs').reads rest hrest).newline
      rw [automatonBatches, toList_separated hblank fun s' h => (hsevered s' h).ending,
        splitOn_tagged (hsevered s (List.mem_cons_self ..)).reads hreads,
        List.filterMap_cons,
        batchOf?_of_not_blank (hblank s (List.mem_cons_self ..)),
        filterMap_batchOf? fun s' h => hblank s' (List.mem_cons_of_mem _ h)]
      rfl

theorem automatonBatches_separated {d : Dialect} {statements : List String}
    (hblank : ∀ s ∈ statements, Text.allBlank s = false)
    (hstanding : ∀ s ∈ statements, Standing d s.toList) :
    automatonBatches d.splitter.ranges (separated statements).toList =
      statements.map fun s => ⟨Text.trim s, .statement⟩ :=
  Severable.automatonBatches_separated hblank fun s hs => (hstanding s hs).severable

end SchemaChange.Script
