import SchemaChange.Proofs.Script.Separated
import SchemaChange.Proofs.Sql.Scripts

/-!
# Dividing joined statements

A statement that a semicolon behind it makes a batch of its own ends outside every range, holds
no semicolon outside them and does not end in one. So wherever such statements meet in a joined
text, one semicolon stands between them, and dividing the text gives them back.
-/
namespace SchemaChange

open Script

section Alone

variable {d : Dialect} {s : String}

/-- The statement is what remains of a piece. -/
theorem exists_piece_of_alone
    (h : automatonBatches d.splitter.ranges (s.toList ++ [';']) = [⟨s, .statement⟩]) :
    ∃ piece ∈ Text.splitOn (';', none) (tagged d.splitter.ranges [] (s.toList ++ [';'])),
      Text.trimmed (piece.map Prod.fst) = s.toList ∧ s.toList ≠ [] := by
  have hmem : (⟨s, .statement⟩ : Batch) ∈
      automatonBatches d.splitter.ranges (s.toList ++ [';']) := by
    rw [h]
    exact List.mem_cons_self ..
  obtain ⟨chars, hchars, hbatch⟩ := List.mem_filterMap.1 hmem
  obtain ⟨piece, hpiece, rfl⟩ := List.mem_map.1 hchars
  refine ⟨piece, hpiece, ?_⟩
  rw [batchOf?] at hbatch
  split at hbatch
  · cases hbatch
  · rename_i hne
    obtain rfl : String.ofList _ = s := congrArg Batch.sql (Option.some.inj hbatch)
    rw [String.toList_ofList]
    exact ⟨rfl, hne⟩

/-- A statement and its semicolon are no piece. -/
theorem length_piece {piece : List (Char × Option Range)}
    (hpiece : piece ∈ Text.splitOn (';', none) (tagged d.splitter.ranges [] (s.toList ++ [';'])))
    (htrim : Text.trimmed (piece.map Prod.fst) = s.toList) (hne : s.toList ≠ []) :
    piece.length = s.toList.length := by
  have hlength := congrArg List.length (tagged_chars d.splitter.ranges [] (s.toList ++ [';']))
  rw [List.length_map, List.length_append, List.length_singleton] at hlength
  have hle := Text.length_trimmed_le (piece.map Prod.fst)
  rw [htrim, List.length_map] at hle
  obtain ⟨before, after, htags, -, -⟩ := Text.exists_of_mem_splitOn hpiece
  have htags' := congrArg List.length htags
  simp only [List.length_append] at htags'
  refine Decidable.byContradiction fun hlong => ?_
  obtain rfl : before = [] := List.length_eq_zero_iff.1 (by omega)
  obtain rfl : after = [] := List.length_eq_zero_iff.1 (by omega)
  rw [List.nil_append, List.append_nil] at htags
  have hchars : piece.map Prod.fst = s.toList ++ [';'] := by rw [← htags, tagged_chars]
  have hwhole : Text.trimmed (s.toList ++ [';']) = s.toList ++ [';'] := by
    refine Text.trimmed_eq_self (fun c hc => ?_) fun c hc => ?_
    · rw [List.head?_append, List.head?_eq_some_head hne, Option.some_or,
        ← List.head?_eq_some_head hne, ← htrim] at hc
      exact Text.isBlank_of_head?_trimmed hc
    · rw [List.getLast?_concat] at hc
      cases hc
      decide
  rw [hchars, hwhole] at htrim
  exact absurd htrim (by simp)

/-- A statement that is a batch of its own is read up to the semicolon behind it. -/
theorem exists_tags_of_alone
    (h : automatonBatches d.splitter.ranges (s.toList ++ [';']) = [⟨s, .statement⟩]) :
    Text.trimmed s.toList = s.toList ∧ s.toList ≠ [] ∧ ∃ tags, (';', none) ∉ tags ∧
      tags.length = s.toList.length ∧
      tagged d.splitter.ranges [] (s.toList ++ [';']) = tags ++ [(';', none)] := by
  obtain ⟨piece, hpiece, htrim, hne⟩ := exists_piece_of_alone h
  have hlength := length_piece hpiece htrim hne
  have hsemi := Text.not_mem_of_mem_splitOn hpiece
  have hchars : piece.map Prod.fst = s.toList := by
    rw [← htrim, Text.trimmed_eq_of_length]
    rw [htrim, List.length_map]
    exact Nat.le_of_eq hlength
  refine ⟨by rw [← htrim, Text.trimmed_trimmed], hne, piece, hsemi, hlength, ?_⟩
  have hall := congrArg List.length (tagged_chars d.splitter.ranges [] (s.toList ++ [';']))
  rw [List.length_map, List.length_append, List.length_singleton, ← hlength] at hall
  refine (Text.eq_of_mem_splitOn hpiece hall).resolve_right fun htags => ?_
  -- the statement would consist of semicolons, and the piece begin with one
  have hshift := congrArg (List.map Prod.fst) htags
  rw [tagged_chars, List.map_cons, hchars] at hshift
  obtain ⟨first, rest, hs⟩ := List.exists_cons_of_ne_nil hne
  rw [hs, List.cons_append] at hshift htags
  obtain ⟨rfl, hrest⟩ := List.cons.inj hshift
  rw [hrest, tagged_semicolon, tagged_semicolon] at htags
  refine hsemi ?_
  rw [← (List.cons.inj htags).2]
  exact List.mem_cons_self ..

/-- A statement that a semicolon makes a batch of its own can be severed from others. -/
theorem severable_of_alone
    (h : automatonBatches d.splitter.ranges (s.toList ++ [';']) = [⟨s, .statement⟩]) :
    Severable d s.toList := by
  obtain ⟨htrim, hne, tags, hsemi, hlength, htags⟩ := exists_tags_of_alone h
  constructor
  · intro rest hrest
    have hconfined : ∀ r ∈ d.splitter.ranges, r.Confined rest := by
      cases rest with
      | nil => exact fun r _ => ⟨confined_nil _, confined_nil _⟩
      | cons c rest =>
          obtain rfl : c = ';' := hrest c rfl
          exact (foreign_semicolon d).confined rest
    exact ⟨tags, outside_of_not_mem hsemi,
      tagged_before (foreign_semicolon d) (by decide) htags hlength hconfined⟩
  · intro hlast
    -- two semicolons in a row stand in the same range
    rw [← htrim, Text.trimEnd_trimmed, htrim] at hlast
    obtain ⟨before, hs⟩ := List.getLast?_eq_some_iff.1 hlast
    have hclosed : ∀ r ∈ ([] : List Range), r ∈ d.splitter.ranges := by simp
    obtain ⟨read, left, hleft, hread⟩ := exists_tagged_append hclosed before
    have hsemis := hread [';', ';'] ((foreign_semicolon d).confined [';'])
    have hcopy := tagged_foreign (foreign_semicolon d) hleft (by simp)
    rw [hcopy, hcopy, tagged_nil] at hsemis
    rw [hs, List.append_assoc, List.singleton_append, hsemis, ← List.singleton_append,
      ← List.append_assoc] at htags
    obtain ⟨rfl, hmark⟩ := List.append_inj' htags rfl
    refine hsemi (List.mem_append_right _ ?_)
    rw [List.cons.inj hmark |>.1]
    exact List.mem_cons_self ..

end Alone

/-- Dividing the text that joins statements gives them back, if each of them is a batch of its
own with a semicolon behind it. -/
theorem split_joinStatements {p : Profile} (hp : p.dialect.splitter.separator = .semicolon)
    {statements : List String}
    (halone : ∀ s ∈ statements,
      (p.dialect.splitter.withStripComments false).split (s ++ ";") = [⟨s, .statement⟩]) :
    (p.dialect.splitter.withStripComments false).split (p.joinStatements statements) =
      statements.map (⟨·, .statement⟩) := by
  have hsplit := (p.dialect.splitter.withStripComments false).split_of_semicolon hp rfl
    (withinLines_splitter p.dialect)
  have hpieces : ∀ s ∈ statements,
      automatonBatches p.dialect.splitter.ranges (s.toList ++ [';']) = [⟨s, .statement⟩] := by
    intro s hs
    have h := halone s hs
    rw [hsplit, String.toList_append] at h
    exact h
  have htrim : ∀ s ∈ statements, Text.trim s = s ∧ Text.allBlank s = false := by
    intro s hs
    obtain ⟨htrimmed, hne, -⟩ := exists_tags_of_alone (hpieces s hs)
    exact ⟨by rw [Text.trim, htrimmed, String.ofList_toList],
      Text.allBlank_of_trimmed_ne_nil (by rwa [htrimmed])⟩
  have horacle : p.dialect ≠ .oracle := by
    intro he
    rw [he] at hp
    cases hp
  rw [Profile.joinStatements_eq_separated horacle, hsplit]
  refine (Severable.automatonBatches_separated (fun s hs => (htrim s hs).2)
    fun s hs => severable_of_alone (hpieces s hs)).trans ?_
  exact List.map_congr_left fun s hs => by rw [(htrim s hs).1]

theorem split_joinStatements_postgres :
    let statements := ["SELECT ';' -- ;\nFROM a", "DO $$\nx; $$", "COMMIT /*;*/"]
    quotedPostgres.dialect.splitter.separator = .semicolon ∧
      (∀ s ∈ statements, (quotedPostgres.dialect.splitter.withStripComments false).split
        (s ++ ";") = [⟨s, .statement⟩]) ∧
      (quotedPostgres.dialect.splitter.withStripComments false).split
          "SELECT ';' -- ;\nFROM a;\nDO $$\nx; $$;\nCOMMIT /*;*/" =
        statements.map (⟨·, .statement⟩) := by
  intro statements
  have halone : ∀ s ∈ statements, (quotedPostgres.dialect.splitter.withStripComments false).split
      (s ++ ";") = [⟨s, .statement⟩] := by
    have hsplit := (Dialect.postgres.splitter.withStripComments false).split_of_semicolon rfl rfl
      (withinLines_splitter .postgres)
    intro s hs
    refine (hsplit _).trans ?_
    revert s
    decide +kernel
  have hjoined : quotedPostgres.joinStatements statements =
      "SELECT ';' -- ;\nFROM a;\nDO $$\nx; $$;\nCOMMIT /*;*/" := by decide +kernel
  exact ⟨rfl, halone, hjoined ▸ split_joinStatements rfl halone⟩

end SchemaChange
