import SchemaChange.Proofs.Script.Reading

/-!
# Putting texts together

Two texts that stand for themselves may touch unless both have quotes where they meet. A
firm text between them, one that neither begins nor ends in a quote, keeps them apart.
-/
namespace SchemaChange.Script

/-- A text that is read as a whole before anything but a quote, and whose last character
other than blanks is no semicolon. -/
structure Standing (d : Dialect) (cs : List Char) : Prop where
  reads : ∀ rest, Apart rest → Reads d cs rest
  ending : (Text.trimEnd cs).getLast? ≠ some ';'

/-- A text of quiet characters. -/
def isPlain (cs : List Char) : Bool := !cs.isEmpty && cs.all isQuiet

/-- Fixed SQL in which every literal is closed, and every character between the literals
satisfies a condition on it and on what is behind it. The flag tells whether a literal is open
where the text begins. -/
def closesLiterals (holds : Char → List Char → Bool) : Bool → List Char → Bool
  | inside, [] => !inside
  | false, c :: cs =>
      if c = '\x27' then closesLiterals holds true cs
      else holds c cs && closesLiterals holds false cs
  | true, c :: cs =>
      if c = '\x27' then cs.head? != some '\x27' && closesLiterals holds false cs
      else closesLiterals holds true cs

/-- Fixed SQL that neither begins nor ends in a quote, with quiet characters between its
literals. -/
def isFirm (cs : List Char) : Bool :=
  closesLiterals (fun c _ => isQuiet c) false cs && cs.head?.any (!isQuote ·) &&
    cs.getLast?.any (!isQuote ·) && (Text.trimEnd cs).getLast? != some ';'

/-- A text that separates whatever stands on both sides. -/
structure Firm (d : Dialect) (cs : List Char) : Prop where
  ne_nil : cs ≠ []
  apart : Apart cs
  reads : ∀ rest, Reads d cs rest
  ending : (Text.trimEnd cs).getLast? ≠ some ';'

theorem Firm.standing {d : Dialect} {cs : List Char} (h : Firm d cs) : Standing d cs :=
  ⟨fun rest _ => h.reads rest, h.ending⟩

/-- The last character other than blanks of two texts is that of one of them. -/
theorem ending_append {cs ds : List Char} (hcs : (Text.trimEnd cs).getLast? ≠ some ';')
    (hds : (Text.trimEnd ds).getLast? ≠ some ';') :
    (Text.trimEnd (cs ++ ds)).getLast? ≠ some ';' := by
  rw [Text.trimEnd_append]
  split
  · exact hcs
  · rename_i hne
    rw [List.getLast?_append]
    rw [List.getLast?_eq_some_getLast hne] at hds ⊢
    exact hds

theorem ending_of_not_mem {cs : List Char} (h : ';' ∉ cs) :
    (Text.trimEnd cs).getLast? ≠ some ';' := by
  intro hlast
  obtain ⟨trail, hcs, -⟩ := Text.exists_trimEnd cs
  refine h ?_
  rw [hcs]
  exact List.mem_append_left _ (List.mem_of_getLast? hlast)

theorem Firm.append {d : Dialect} {cs ds : List Char} (hcs : Firm d cs) (hds : Firm d ds) :
    Firm d (cs ++ ds) where
  ne_nil := by simp [hcs.ne_nil]
  apart := hcs.apart.append hcs.ne_nil ds
  reads rest := .append (hcs.reads _) (hds.reads rest)
  ending := ending_append hcs.ending hds.ending

theorem standing_nil (d : Dialect) : Standing d [] :=
  ⟨fun rest _ => .nil d rest, by simp [Text.trimEnd]⟩

section Between

variable {d : Dialect} {cs ds es : List Char}

/-- A firm text holds two others apart. -/
theorem Standing.between (hcs : Standing d cs) (hds : Firm d ds) (hes : Standing d es) :
    Standing d (cs ++ (ds ++ es)) where
  reads rest hrest := by
    refine .append (hcs.reads _ ?_) (.append (hds.reads _) (hes.reads rest hrest))
    rw [List.append_assoc]
    exact hds.apart.append hds.ne_nil _
  ending := ending_append hcs.ending (ending_append hds.ending hes.ending)

theorem Standing.lead (hes : Standing d es) (hds : Firm d ds) : Standing d (ds ++ es) :=
  (standing_nil d).between hds hes

/-- A text that does not begin in a quote is read behind any other. -/
theorem Standing.append (hcs : Standing d cs) (hds : Standing d ds) (hapart : Apart ds)
    (hne : ds ≠ []) : Standing d (cs ++ ds) where
  reads rest hrest := .append (hcs.reads _ (hapart.append hne rest)) (hds.reads rest hrest)
  ending := ending_append hcs.ending hds.ending

theorem Standing.last (hcs : Standing d cs) (hds : Firm d ds) : Standing d (cs ++ ds) := by
  simpa using hcs.between hds (standing_nil d)

end Between

/-- A closed literal leaves the scan outside the ranges, unless a quote follows the last one. -/
theorem exists_tags_of_closesLiterals {holds : Char → List Char → Bool}
    (hmark : ∀ c cs, holds c cs = true → (isMark c && c != ';') = false) (d : Dialect)
    {inside : Bool} {cs rest : List Char} (h : closesLiterals holds inside cs = true)
    (hrest : cs.getLast? = some '\x27' → rest.head? ≠ some '\x27') :
    ∃ tags, tags.map Prod.fst = cs ∧ Outside holds tags ∧
      tagged d.splitter.ranges (if inside then [quotedTo '\x27'] else []) (cs ++ rest) =
        tags ++ tagged d.splitter.ranges [] rest := by
  induction cs generalizing inside with
  | nil =>
      obtain rfl : inside = false := by simpa [closesLiterals] using h
      exact ⟨[], rfl, trivial, rfl⟩
  | cons c cs ih =>
      have hlast : cs.getLast? = some '\x27' → rest.head? ≠ some '\x27' := fun hlast =>
        hrest (by simp [List.getLast?_cons, hlast])
      -- one move of the scan and what is read behind it
      have step : ∀ {now : Bool} (next : Bool) {range : Option Range},
          move d.splitter.ranges (if now then [quotedTo '\x27'] else []) (c :: (cs ++ rest)) =
            ⟨1, range, if next then [quotedTo '\x27'] else []⟩ →
          (range = none → holds c cs = true) → closesLiterals holds next cs = true →
          ∃ tags, tags.map Prod.fst = c :: cs ∧ Outside holds tags ∧
            tagged d.splitter.ranges (if now then [quotedTo '\x27'] else []) (c :: cs ++ rest) =
              tags ++ tagged d.splitter.ranges [] rest := by
        intro now next range hmove hrange hnext
        obtain ⟨tags, hchars, houtside, htags⟩ := ih hnext hlast
        refine ⟨(c, range) :: tags, by simp [hchars], ⟨hchars ▸ hrange, houtside⟩, ?_⟩
        rw [List.cons_append, tagged_of_ne_nil _ _ (List.cons_ne_nil _ _), hmove]
        simp [htags]
      cases inside with
      | false =>
          rw [closesLiterals] at h
          split at h
          · rename_i hc
            subst hc
            exact step true (quotes_single d _) nofun h
          · obtain ⟨hc, hcs⟩ := Bool.and_eq_true_iff.1 h
            exact step false (move_plain_char d (hmark c cs hc) _) (fun _ => hc) hcs
      | true =>
          rw [closesLiterals] at h
          split at h
          · rename_i hc
            subst hc
            obtain ⟨hlone, hcs⟩ := Bool.and_eq_true_iff.1 h
            have hhead : (cs ++ rest).head? ≠ some '\x27' := by
              cases cs with
              | nil => exact hrest rfl
              | cons c cs => simpa using hlone
            exact step false (move_inside_lone hhead _) nofun hcs
          · rename_i hc
            exact step true (move_inside_other hc _ _) nofun h

theorem readsAs_of_closesLiterals {holds : Char → List Char → Bool}
    (hmark : ∀ c cs, holds c cs = true → (isMark c && c != ';') = false) (d : Dialect)
    {cs rest : List Char} (h : closesLiterals holds false cs = true)
    (hrest : cs.getLast? = some '\x27' → rest.head? ≠ some '\x27') :
    ReadsAs holds d cs rest := by
  obtain ⟨tags, -, houtside, htags⟩ := exists_tags_of_closesLiterals hmark d h hrest
  exact ⟨tags, houtside, htags⟩

theorem firm {d : Dialect} {cs : List Char} (h : isFirm cs = true) : Firm d cs := by
  simp only [isFirm, Bool.and_eq_true, bne_iff_ne] at h
  obtain ⟨⟨⟨hcloses, hhead⟩, hlast⟩, hending⟩ := h
  refine ⟨?_, fun c hc => ?_, fun rest => ?_, hending⟩
  · rintro rfl
    cases hhead
  · simpa [hc] using hhead
  · refine ReadsAs.mono (fun c cs hc => (isQuiet_eq_true hc).2)
      (readsAs_of_closesLiterals (fun c cs hc => (isQuiet_eq_true hc).1) d hcloses fun hquote => ?_)
    rw [hquote] at hlast
    exact absurd hlast (by decide)

/-- Quiet characters are fixed SQL. -/
theorem isFirm_of_isPlain {cs : List Char} (h : isPlain cs = true) : isFirm cs = true := by
  simp only [isPlain, Bool.and_eq_true, Bool.not_eq_true', List.isEmpty_eq_false_iff,
    List.all_eq_true] at h
  obtain ⟨hne, hall⟩ := h
  have hquote : ∀ c ∈ cs, (!isQuote c) = true := fun c hc => by
    have hmark := isMark_of_isQuiet (hall c hc)
    rw [isMark, Bool.or_eq_false_iff] at hmark
    simp [hmark.1]
  have hcloses : closesLiterals (fun c _ => isQuiet c) false cs = true := by
    clear hne hquote
    induction cs with
    | nil => rfl
    | cons c cs ih =>
        have hc := hall c (List.mem_cons_self ..)
        rw [closesLiterals, if_neg (by rintro rfl; exact absurd hc (by decide)), hc]
        exact ih fun c hc => hall c (List.mem_cons_of_mem _ hc)
  have hsemi : ';' ∉ cs := fun hmem => absurd (hall ';' hmem) (by decide)
  simp only [isFirm, Bool.and_eq_true, bne_iff_ne]
  refine ⟨⟨⟨hcloses, ?_⟩, ?_⟩, ending_of_not_mem hsemi⟩
  · simpa [List.head?_eq_some_head hne] using hquote _ (List.head_mem hne)
  · simpa [List.getLast?_eq_some_getLast hne] using hquote _ (List.getLast_mem hne)

theorem isBlank_of_isQuote {c : Char} (h : isQuote c) : Text.isBlank c = false ∧ c ≠ ';' := by
  simp only [isQuote, Bool.or_eq_true, beq_iff_eq] at h
  rcases h with ((rfl | rfl) | rfl) | rfl <;> decide

theorem getLast?_quoted (first mark : Char) (body : List Char) :
    (first :: (body ++ [mark])).getLast? = some mark := by
  rw [← List.cons_append, List.getLast?_concat]

theorem standing_quoted {d : Dialect} {mark : Char} (hquotes : Quotes d mark)
    (hmark : isQuote mark) {body : List Char} (hbody : Doubled mark body) :
    Standing d (opener mark :: (body ++ [mark])) where
  reads rest hrest := reads_quoted hquotes hbody fun h => by
    simp [hrest mark h] at hmark
  ending := by
    obtain ⟨hblank, hsemi⟩ := isBlank_of_isQuote hmark
    have hlast := getLast?_quoted (opener mark) mark body
    rw [Text.trimEnd_eq_self fun c hc => by rw [hlast] at hc; cases hc; exact hblank, hlast]
    simpa using hsemi

end SchemaChange.Script
