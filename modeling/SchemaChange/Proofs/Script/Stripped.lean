import SchemaChange.Proofs.Script.Exchange
import SchemaChange.Proofs.Script.Settled

/-!
# Batches without their comments

Dropping a comment brings the characters on its two sides together. In the dialects whose
statements end with semicolons a batch without comments is read like the text that it comes
from, unless two such characters make up the code that opens a range. Two literals that are
brought together make one, but the same characters lie inside it.
-/
namespace SchemaChange.Script

/-- The characters outside the comments. -/
def uncommented (tags : List (Char × Option Range)) : List (Char × Option Range) :=
  tags.filter fun (_, range) => !range.any Range.isComment

/-- A character and the one behind it do not make up the code that opens a range. -/
def opensNothing (ranges : List Range) (c : Char) (cs : List Char) : Bool :=
  ranges.all fun r => r.opening.chars != c :: cs.take 1

/-- When the comments are dropped, no character outside the ranges opens one together with the
character that comes to stand behind it. -/
def Unjoined (ranges : List Range) (tags : List (Char × Option Range)) : Prop :=
  Outside (opensNothing ranges) (uncommented tags)

instance (ranges : List Range) : DecidablePred (Unjoined ranges) := fun tags =>
  inferInstanceAs (Decidable (Outside (opensNothing ranges) (uncommented tags)))

section Pieces

/-- The parts of a scan for semicolons lie between the semicolons outside the ranges. -/
theorem taggedParts_marksSemicolons {es : List Event} (h : ∀ e ∈ es, e.MarksSemicolons)
    {first : List (Char × Option Range)} {others : List (List (Char × Option Range))}
    (hsplit : Text.splitOn (';', none) (es.flatMap Event.tagged) = first :: others) :
    taggedParts es = ((first, .statement), others.map (·, .statement)) := by
  induction es generalizing first others with
  | nil =>
      cases hsplit
      rfl
  | cons e es ih =>
      obtain ⟨part, parts, hparts⟩ := Text.exists_splitOn (';', none) (es.flatMap Event.tagged)
      have hlater := ih (fun e he => h e (List.mem_cons_of_mem _ he)) hparts
      rw [List.flatMap_cons] at hsplit
      cases e with
      | text chars range =>
          have htext : (';', none) ∉ (Event.text chars range).tagged := by
            have hchars : range = none → ';' ∉ chars := h _ (List.mem_cons_self ..)
            simp only [Event.tagged, List.mem_map, Prod.mk.injEq, not_exists, not_and]
            exact fun c hc he hr => hchars hr (he ▸ hc)
          rw [Text.splitOn_append htext hparts] at hsplit
          obtain ⟨rfl, rfl⟩ := List.cons.inj hsplit
          rw [taggedParts_text, hlater]
          rfl
      | cut separator kind =>
          obtain ⟨rfl, rfl⟩ := h _ (List.mem_cons_self ..)
          have hcut : (Event.cut [';'] .statement).tagged = [(';', none)] := rfl
          rw [hcut, List.singleton_append, Text.splitOn_cons hparts, if_pos rfl] at hsplit
          obtain ⟨rfl, rfl⟩ := List.cons.inj hsplit
          rw [taggedParts_cut, hlater]
          rfl

/-- Where the parts of a scan are those of events that mark all semicolons, the batches are what is
left of the pieces between the semicolons outside the ranges. -/
theorem split_of_marksSemicolons {sp : Splitter} {script : String} {es : List Event}
    (hparts : taggedParts (scan sp script.toList) = taggedParts es)
    (hes : ∀ e ∈ es, e.MarksSemicolons) : sp.split script =
      (Text.splitOn (';', none) (es.flatMap Event.tagged)).filterMap fun piece =>
        batchOf? (withoutComments sp.stripComments piece) .statement := by
  obtain ⟨first, others, hsplit⟩ := Text.exists_splitOn (';', none) (es.flatMap Event.tagged)
  have hlist : partList (scan sp script.toList) = (first :: others).map (·, .statement) := by
    rw [partList, hparts, taggedParts_marksSemicolons hes hsplit]
    rfl
  rw [split_eq_partList, hlist, hsplit, List.filterMap_map]
  rfl

theorem split_eq_pieces (sp : Splitter) (hsep : sp.separator = .semicolon)
    (hranges : ∀ r ∈ sp.ranges, r.WithinLines) (script : String) : sp.split script =
      (Text.splitOn (';', none) (tagged sp.ranges [] script.toList)).filterMap fun piece =>
        batchOf? (withoutComments sp.stripComments piece) .statement := by
  rw [← scan_tagged hranges (by simp [hsep])]
  exact split_of_marksSemicolons rfl (scan_marksSemicolons hsep script.toList)

end Pieces

section Uncommented

variable {d : Dialect} {tags : List (Char × Option Range)} {mark : Char} {cs rest : List Char}

theorem withoutComments_true (tags : List (Char × Option Range)) :
    withoutComments true tags = (uncommented tags).map Prod.fst := rfl

theorem uncommented_append (tags tags' : List (Char × Option Range)) :
    uncommented (tags ++ tags') = uncommented tags ++ uncommented tags' := List.filter_append ..

theorem uncommented_comment {r : Range} (hr : r.isComment = true) (cs : List Char) :
    uncommented (cs.map (·, some r)) = [] := by
  simp [uncommented, hr]

theorem uncommented_code {range : Option Range} (hrange : range.any Range.isComment = false)
    (cs : List Char) : uncommented (cs.map (·, range)) = cs.map (·, range) := by
  simp [uncommented, hrange]

/-- The codes that open ranges have one character or two. -/
theorem length_opening_le (hd : d.splitter.separator = .semicolon) :
    ∀ r ∈ d.splitter.ranges, r.opening.length ≤ 2 := by
  cases d with
  | sqlServer | sqlite | oracle => cases hd
  | _ => decide

/-- Ranges other than comments are texts in dollar signs, and literals and names with the same
quote on both sides. -/
theorem eq_of_not_isComment (hd : d.splitter.separator = .semicolon) {r : Range}
    (hr : r ∈ d.splitter.ranges) (hcode : r.isComment = false) :
    r = dollarQuoted ∨ ∃ mark, r = quotedTo mark ∧ opener mark = mark := by
  have hquoted : ∀ r ∈ d.splitter.ranges, r.isComment = false → r = dollarQuoted ∨
      ['\x27', '"', '\x60'].any (fun mark => r = quotedTo mark && opener mark == mark) = true := by
    cases d with
    | sqlServer | sqlite | oracle => cases hd
    | _ => decide
  refine (hquoted r hr hcode).imp_right fun hany => ?_
  obtain ⟨mark, -, hmark⟩ := List.any_eq_true.1 hany
  simp only [Bool.and_eq_true, decide_eq_true_eq, beq_iff_eq] at hmark
  exact ⟨mark, hmark⟩

/-- A range opens wherever its code stands outside the ranges. -/
theorem move_opening (d : Dialect) : ∀ r ∈ d.splitter.ranges, ∀ rest,
    move d.splitter.ranges [] (r.opening.chars ++ rest) = ⟨r.opening.length, some r, [r]⟩ := by
  cases d <;> simp only [Dialect.splitter, List.forall_mem_cons] <;> (repeat' apply And.intro) <;>
    first | exact fun _ => rfl | exact List.forall_mem_nil _

theorem tagged_opening {r : Range} (hr : r ∈ d.splitter.ranges) (rest : List Char) :
    tagged d.splitter.ranges [] (r.opening.chars ++ rest) =
      r.opening.chars.map (·, some r) ++ tagged d.splitter.ranges [r] rest := by
  have hne : r.opening.chars ++ rest ≠ [] := by simp [r.opening.ne_nil]
  rw [tagged_of_ne_nil _ _ hne, move_opening d r hr]
  simp [Code.length]

/-- Outside the ranges a character is copied before another text too, if it opens no range with
the first character of that text. -/
theorem tagged_copied (hd : d.splitter.separator = .semicolon) {c : Char}
    (hc : ∀ r ∈ d.splitter.ranges, ¬ r.opening.chars <+: c :: rest)
    (h : opensNothing d.splitter.ranges c cs = true) :
    tagged d.splitter.ranges [] (c :: cs) = (c, none) :: tagged d.splitter.ranges [] cs := by
  have hmove : move d.splitter.ranges [] (c :: cs) = ⟨1, none, []⟩ := by
    refine move_of_no_opening fun r hr => ?_
    have hlength := length_opening_le hd r hr
    have hopens := List.all_eq_true.1 h r hr
    rw [Bool.eq_false_iff, Ne, List.isPrefixOf_iff_prefix]
    intro hoccurs
    cases hcode : r.opening.chars with
    | nil => exact r.opening.ne_nil hcode
    | cons first more =>
        rw [hcode] at hoccurs
        obtain ⟨rfl, hmore⟩ := List.cons_prefix_cons.1 hoccurs
        cases more with
        | nil => exact hc r hr (by simp [hcode])
        | cons second others =>
            obtain rfl : others = [] := by
              rw [Code.length, hcode, List.length_cons, List.length_cons] at hlength
              exact List.length_eq_zero_iff.1 (by omega)
            obtain ⟨after, rfl⟩ := hmore
            simp [hcode] at hopens
  rw [tagged_of_ne_nil _ _ (List.cons_ne_nil _ _), hmove]
  rfl

/-- A quote that closes a literal is read like one in a pair. -/
theorem tagged_quote (hmark : quotedTo mark ∈ d.splitter.ranges) (hopener : opener mark = mark)
    (rest : List Char) : tagged d.splitter.ranges [quotedTo mark] (mark :: rest) =
      (mark, some (quotedTo mark)) :: tagged d.splitter.ranges [] rest := by
  by_cases hpair : rest.head? = some mark
  · obtain ⟨rest, rfl⟩ := List.head?_eq_some_iff.1 hpair
    have hcode : (quotedTo mark).opening.chars = [mark] := congrArg (fun c => [c]) hopener
    have hopens := tagged_opening hmark rest
    rw [hcode, List.singleton_append] at hopens
    rw [tagged_inside_pair, hopens]
    rfl
  · exact tagged_inside_lone hpair _

/-- The ranges that are open when the comments are dropped. -/
def coded (stack : List Range) : List Range := stack.filter fun r => !r.isComment

/-- Comments are open, or one other range is, or nothing. -/
def Unmixed (d : Dialect) (stack : List Range) : Prop :=
  (∀ r ∈ stack, r.isComment = true) ∨
    ∃ r ∈ d.splitter.ranges, r.isComment = false ∧ stack = [r]

/-- The text without its comments is read like the text. -/
def ReadsAlike (d : Dialect) (stack : List Range) (tags : List (Char × Option Range)) : Prop :=
  Unjoined d.splitter.ranges tags →
    tagged d.splitter.ranges (coded stack) ((uncommented tags).map Prod.fst) = uncommented tags

theorem coded_of_comments {stack : List Range} (h : ∀ r ∈ stack, r.isComment = true) :
    coded stack = [] := by
  rw [coded, List.filter_eq_nil_iff]
  exact fun r hr => by simp [h r hr]

theorem coded_single {r : Range} (hr : r.isComment = false) : coded [r] = [r] := by
  simp [coded, hr]

/-- A comment is dropped. -/
theorem ReadsAlike.comment {r : Range} {outer stack : List Range} (hr : r.isComment = true)
    (houter : ∀ r ∈ outer, r.isComment = true) (hstack : ∀ r ∈ stack, r.isComment = true)
    (h : ReadsAlike d stack tags) (cs : List Char) :
    ReadsAlike d outer (cs.map (·, some r) ++ tags) := by
  intro hunjoined
  rw [Unjoined, uncommented_append, uncommented_comment hr, List.nil_append] at hunjoined
  rw [uncommented_append, uncommented_comment hr, List.nil_append, coded_of_comments houter,
    ← coded_of_comments hstack]
  exact h hunjoined

/-- Nothing is asked of the text before a part. -/
theorem outside_of_append {holds : Char → List Char → Bool}
    {tags tags' : List (Char × Option Range)}
    (h : Outside holds (tags ++ tags')) : Outside holds tags' := by
  induction tags with
  | nil => exact h
  | cons tag tags ih => exact ih h.2

/-- Other characters are kept, if they are read alike. -/
theorem ReadsAlike.kept {range : Option Range} {stack next : List Range}
    (hrange : range.any Range.isComment = false) (h : ReadsAlike d next tags)
    (hread : Unjoined d.splitter.ranges (cs.map (·, range) ++ tags) →
      tagged d.splitter.ranges (coded stack) (cs ++ (uncommented tags).map Prod.fst) =
        cs.map (·, range) ++
          tagged d.splitter.ranges (coded next) ((uncommented tags).map Prod.fst)) :
    ReadsAlike d stack (cs.map (·, range) ++ tags) := by
  intro hunjoined
  have hlater : Unjoined d.splitter.ranges tags := by
    rw [Unjoined, uncommented_append] at hunjoined
    exact outside_of_append hunjoined
  have hchars : (cs.map (·, range)).map Prod.fst = cs := by simp [Function.comp_def]
  rw [uncommented_append, uncommented_code hrange, List.map_append, hchars, hread hunjoined,
    h hlater]

section Moves

variable {n : Nat} {range : Option Range} {next : List Range}

/-- One move outside the ranges. -/
theorem readsAlike_outside (hd : d.splitter.separator = .semicolon) (hne : cs ≠ [])
    (hmove : move d.splitter.ranges [] cs = ⟨n, range, next⟩)
    (ih : Unmixed d next → ReadsAlike d next (tagged d.splitter.ranges next (cs.drop n))) :
    ReadsAlike d [] ((cs.take n).map (·, range) ++
      tagged d.splitter.ranges next (cs.drop n)) := by
  rw [move] at hmove
  split at hmove
  · rename_i r hfind
    cases hmove
    have hr := List.mem_of_find?_eq_some hfind
    have hcode := List.find?_some hfind
    obtain ⟨rest, rfl⟩ := List.isPrefixOf_iff_prefix.1 hcode
    simp only [Code.length, List.take_left, List.drop_left] at ih ⊢
    cases hcomment : r.isComment with
    | true =>
        have hdropped : ∀ r' ∈ [r], r'.isComment = true := by simpa using hcomment
        exact (ih (.inl hdropped)).comment hcomment (List.forall_mem_nil _) hdropped _
    | false =>
        refine (ih (.inr ⟨r, hr, hcomment, rfl⟩)).kept hcomment fun _ => ?_
        rw [coded_single hcomment]
        exact tagged_opening hr _
  · rename_i hfind
    cases hmove
    obtain ⟨c, rest, rfl⟩ := List.exists_cons_of_ne_nil hne
    refine (ih (.inl (List.forall_mem_nil _))).kept rfl fun hunjoined => ?_
    have hnone : ∀ r ∈ d.splitter.ranges, ¬ r.opening.chars <+: c :: rest := fun r hr => by
      simpa using List.find?_eq_none.1 hfind r hr
    exact tagged_copied hd hnone (hunjoined.1 rfl)

/-- A character in a literal stands behind itself. -/
theorem readsAlike_quoted (hmark : quotedTo mark ∈ d.splitter.ranges)
    (hopener : opener mark = mark) (hne : cs ≠ [])
    (hmove : move d.splitter.ranges [quotedTo mark] cs = ⟨n, range, next⟩)
    (ih : Unmixed d next → ReadsAlike d next (tagged d.splitter.ranges next (cs.drop n))) :
    ReadsAlike d [quotedTo mark] ((cs.take n).map (·, range) ++
      tagged d.splitter.ranges next (cs.drop n)) := by
  have hcode : (quotedTo mark).isComment = false := rfl
  have hstays : Unmixed d [quotedTo mark] := .inr ⟨_, hmark, hcode, rfl⟩
  obtain ⟨c, rest, rfl⟩ := List.exists_cons_of_ne_nil hne
  by_cases hc : c = mark
  · subst hc
    by_cases hpair : rest.head? = some c
    · obtain ⟨rest, rfl⟩ := List.head?_eq_some_iff.1 hpair
      rw [move_inside_pair] at hmove
      cases hmove
      refine (ih hstays).kept hcode fun _ => ?_
      rw [coded_single hcode]
      exact tagged_inside_pair _ _
    · rw [move_inside_lone hpair] at hmove
      cases hmove
      refine (ih (.inl (List.forall_mem_nil _))).kept hcode fun _ => ?_
      rw [coded_single hcode]
      exact tagged_quote hmark hopener _
  · rw [move_inside_other hc] at hmove
    cases hmove
    refine (ih hstays).kept hcode fun _ => ?_
    rw [coded_single hcode]
    exact tagged_inside_other hc _ _

/-- The characters of an open text in dollar signs are kept. -/
theorem head?_uncommented_dollar (ranges : List Range) (cs : List Char) :
    ((uncommented (tagged ranges [dollarQuoted] cs)).map Prod.fst).head? = cs.head? := by
  cases cs with
  | nil => rw [tagged_nil]; rfl
  | cons c cs =>
      have hmove : (move ranges [dollarQuoted] (c :: cs)).range = some dollarQuoted ∧
          0 < (move ranges [dollarQuoted] (c :: cs)).taken := by
        simp only [move, moveInside, dollarQuoted]
        split <;> exact ⟨rfl, by decide⟩
      obtain ⟨n, hn⟩ := Nat.exists_eq_add_one_of_ne_zero (Nat.ne_of_gt hmove.2)
      rw [tagged_of_ne_nil _ _ (List.cons_ne_nil _ _), hmove.1, uncommented_append,
        uncommented_code rfl, hn]
      rfl

theorem isPrefixOf_dollar (c : Char) (cs : List Char) :
    ['$', '$'].isPrefixOf (c :: cs) = ('$' == c && cs.head? == some '$') := by
  cases cs with
  | nil => simp [List.isPrefixOf]
  | cons second cs =>
      have hcomm : (second == '$') = ('$' == second) := BEq.comm
      simp [List.isPrefixOf, hcomm]

/-- One move in a text in dollar signs. -/
theorem readsAlike_dollar (hdollar : dollarQuoted ∈ d.splitter.ranges) (hne : cs ≠ [])
    (hmove : move d.splitter.ranges [dollarQuoted] cs = ⟨n, range, next⟩)
    (ih : Unmixed d next → ReadsAlike d next (tagged d.splitter.ranges next (cs.drop n))) :
    ReadsAlike d [dollarQuoted] ((cs.take n).map (·, range) ++
      tagged d.splitter.ranges next (cs.drop n)) := by
  have hcode : dollarQuoted.isComment = false := rfl
  have hcloses : ∀ cs, move d.splitter.ranges [dollarQuoted] cs =
      if ['$', '$'].isPrefixOf cs then ⟨2, some dollarQuoted, []⟩
      else ⟨1, some dollarQuoted, [dollarQuoted]⟩ := fun cs => rfl
  obtain ⟨c, rest, rfl⟩ := List.exists_cons_of_ne_nil hne
  rw [hcloses] at hmove
  split at hmove
  · rename_i hclosing
    cases hmove
    refine (ih (.inl (List.forall_mem_nil _))).kept hcode fun _ => ?_
    obtain ⟨after, hafter⟩ := List.isPrefixOf_iff_prefix.1 hclosing
    rw [← hafter, coded_single hcode]
    exact tagged_of_ne_nil _ _ (List.cons_ne_nil _ _)
  · rename_i hother
    cases hmove
    refine (ih (.inr ⟨_, hdollar, hcode, rfl⟩)).kept hcode fun _ => ?_
    rw [coded_single hcode, List.take_succ_cons, List.take_zero, List.drop_succ_cons,
      List.drop_zero, List.singleton_append, tagged_of_ne_nil _ _ (List.cons_ne_nil _ _), hcloses,
      isPrefixOf_dollar, head?_uncommented_dollar, ← isPrefixOf_dollar, if_neg hother]
    rfl

/-- A comment is left, or goes deeper into comments. -/
theorem moveInside_comment {r : Range} {outer : List Range} (hr : r.isComment = true)
    (houter : ∀ r' ∈ outer, r'.isComment = true) (cs : List Char) :
    (moveInside r outer cs).range = some r ∧
      ∀ r' ∈ (moveInside r outer cs).stack, r'.isComment = true := by
  cases r with
  | doubled opening closing => cases hr
  | plain opening closing isComment | lineComment opening atLineStart | nesting opening closing =>
      simp only [moveInside]
      split_ifs <;> simp_all

end Moves

/-- Without its comments a text is read as it is with them. -/
theorem readsAlike_tagged (hd : d.splitter.separator = .semicolon) {stack : List Range}
    (hstack : Unmixed d stack) (cs : List Char) :
    ReadsAlike d stack (tagged d.splitter.ranges stack cs) := by
  fun_induction tagged d.splitter.ranges stack cs with
  | case1 stack =>
      intro _
      exact tagged_nil _ _
  | case2 stack cs hne m ih =>
      rcases hstack with hcomments | ⟨r, hr, hcode, rfl⟩
      · cases stack with
        | nil => exact readsAlike_outside hd hne rfl ih
        | cons r outer =>
            obtain ⟨hr, houter⟩ := List.forall_mem_cons.1 hcomments
            obtain ⟨hrange, hstack⟩ := moveInside_comment hr houter cs
            have hrange : m.range = some r := hrange
            rw [hrange]
            exact (ih (.inl hstack)).comment hr hcomments hstack _
      · rcases eq_of_not_isComment hd hr hcode with rfl | ⟨mark, rfl, hopener⟩
        · exact readsAlike_dollar hr hne rfl ih
        · exact readsAlike_quoted hr hopener hne rfl ih

end Uncommented

section Batches

variable {d : Dialect} {piece : List (Char × Option Range)} {b : Batch}

/-- A piece without its comments has the ranges that it has with them. -/
theorem tagged_withoutComments (hd : d.splitter.separator = .semicolon)
    (hread : tagged d.splitter.ranges [] (piece.map Prod.fst) = piece)
    (h : Unjoined d.splitter.ranges piece) :
    tagged d.splitter.ranges [] (withoutComments true piece) = uncommented piece := by
  have halike := readsAlike_tagged hd (.inl (List.forall_mem_nil _)) (piece.map Prod.fst)
  rw [hread] at halike
  exact halike h

/-- In the dialects whose statements end with semicolons, the batches without comments are what
is left of the pieces between the semicolons outside the ranges. Such a batch comes back alone
when it is split, if no two characters that the comments held apart open a range. -/
theorem split_stripped (d : Dialect) (hd : d.splitter.separator = .semicolon) (script : String) :
    let run := d.splitter.withStripComments true
    let pieces := Text.splitOn (';', none) (tagged d.splitter.ranges [] script.toList)
    run.split script =
        pieces.filterMap (fun piece => batchOf? (withoutComments true piece) .statement) ∧
      ∀ piece ∈ pieces, ∀ b, batchOf? (withoutComments true piece) .statement = some b →
        Unjoined d.splitter.ranges piece → run.split b.sql = [b] := by
  intro run pieces
  have hsplit (script : String) : run.split script =
      (Text.splitOn (';', none) (tagged d.splitter.ranges [] script.toList)).filterMap
        fun piece => batchOf? (withoutComments true piece) .statement :=
    split_eq_pieces run hd (withinLines_splitter d) script
  refine ⟨hsplit script, fun piece hpiece b hb hunjoined => ?_⟩
  have hread := tagged_of_mem_splitOn (foreign_semicolon d) (by decide) hpiece
  have hsemi : (';', none) ∉ piece := Text.not_mem_of_mem_splitOn hpiece
  obtain ⟨lead, trail, -, -, htrimmed⟩ := exists_tagged_trimmed d (withoutComments true piece)
  rw [tagged_withoutComments hd hread hunjoined, ← (exists_of_batchOf? hb).1] at htrimmed
  -- the batch has neither a comment nor a semicolon outside the ranges
  have hleft : ∀ tag ∈ tagged d.splitter.ranges [] b.sql.toList, tag ∈ uncommented piece := by
    intro tag htag
    rw [htrimmed]
    exact List.mem_append_right _ (List.mem_append_left _ htag)
  have huncommented : uncommented (tagged d.splitter.ranges [] b.sql.toList) =
      tagged d.splitter.ranges [] b.sql.toList :=
    List.filter_eq_self.2 fun tag htag => (List.mem_filter.1 (hleft tag htag)).2
  have hnone : (';', none) ∉ tagged d.splitter.ranges [] b.sql.toList := fun hmem =>
    hsemi (List.mem_filter.1 (hleft _ hmem)).1
  have hchars : withoutComments true (tagged d.splitter.ranges [] b.sql.toList) = b.sql.toList := by
    rw [withoutComments_true, huncommented, tagged_chars]
  rw [hsplit, Text.splitOn_of_not_mem hnone, List.filterMap_cons, hchars, batchOf?_sql hb,
    List.filterMap_nil, ← (exists_of_batchOf? hb).2.2]

/-- Comments between two hyphens that do not touch, between two literals, and at an end. -/
theorem split_stripped_literals :
    let run := Dialect.mySql.splitter.withStripComments true
    let script := "SELECT 1 - /* ; */-2 # a\n; -- b\nSELECT 'c'/**/'d;'"
    Dialect.mySql.splitter.separator = .semicolon ∧
      run.split script = [⟨"SELECT 1 - -2", .statement⟩, ⟨"SELECT 'c''d;'", .statement⟩] ∧
      ∀ b ∈ run.split script, run.split b.sql = [b] := by
  intro run script
  obtain ⟨hsplit, hback⟩ := split_stripped .mySql rfl script
  have hunjoined : ∀ piece ∈ Text.splitOn (';', none)
      (tagged Dialect.mySql.splitter.ranges [] script.toList),
      Unjoined Dialect.mySql.splitter.ranges piece := by
    decide +kernel
  refine ⟨rfl, by decide +kernel, fun b hb => ?_⟩
  rw [hsplit] at hb
  obtain ⟨piece, hpiece, hbatch⟩ := List.mem_filterMap.1 hb
  exact hback piece hpiece b hbatch (hunjoined piece hpiece)

/-- Two hyphens that a comment held apart begin a comment without it. -/
theorem not_split_stripped :
    let run := Dialect.mySql.splitter.withStripComments true
    run.split "SELECT 1 -/**/- 2" = [⟨"SELECT 1 -- 2", .statement⟩] ∧
      run.split "SELECT 1 -- 2" = [⟨"SELECT 1", .statement⟩] ∧
      ¬ ∀ script, ∀ b ∈ run.split script, (run.split b.sql).map Batch.sql = [b.sql] := by
  intro run
  have hjoined : run.split "SELECT 1 -/**/- 2" = [⟨"SELECT 1 -- 2", .statement⟩] := by
    decide +kernel
  have hcomment : run.split "SELECT 1 -- 2" = [⟨"SELECT 1", .statement⟩] := by decide +kernel
  refine ⟨hjoined, hcomment, fun h => ?_⟩
  have hback := h "SELECT 1 -/**/- 2" ⟨"SELECT 1 -- 2", .statement⟩ (by simp [hjoined])
  rw [hcomment] at hback
  exact absurd hback (by decide)

end Batches

end SchemaChange.Script
