import SchemaChange.Proofs.Script.Semicolon

/-!
# Texts that stand for themselves

A text that is read from outside all ranges to outside all ranges, with no semicolon and no line
break between them, is never divided. Whether it is read so depends on what follows it only
where it ends in a quote: another quote would be taken for an escaped one.
-/
namespace SchemaChange.Script

/-- The characters that close quoted ranges. -/
def isQuote (c : Char) : Bool := c == '\x27' || c == '"' || c == '\x60' || c == ']'

/-- The characters that can begin or end a range or end a statement. -/
def isMark (c : Char) : Bool := isQuote c || ['[', '-', '/', '#', '$', ';'].contains c

/-- The characters that mean nothing outside the ranges. -/
def isQuiet (c : Char) : Bool := !isMark c && c != '\n'

/-- The text does not begin with a quote. -/
def Apart (cs : List Char) : Prop := ∀ c, cs.head? = some c → isQuote c = false

theorem apart_nil : Apart [] := by simp [Apart]

theorem apart_cons {c : Char} (h : isQuote c = false) (cs : List Char) : Apart (c :: cs) := by
  simpa [Apart] using h

theorem Apart.append {cs : List Char} (hcs : Apart cs) (hne : cs ≠ []) (rest : List Char) :
    Apart (cs ++ rest) := by
  cases cs with
  | nil => exact absurd rfl hne
  | cons c cs => simpa [Apart] using hcs

/-- Every character outside the ranges satisfies a condition on it and on what is behind it. -/
def Outside (holds : Char → List Char → Bool) : List (Char × Option Range) → Prop
  | [] => True
  | (c, range) :: tags =>
      (range = none → holds c (tags.map Prod.fst) = true) ∧ Outside holds tags

instance decidableOutside (holds : Char → List Char → Bool) : DecidablePred (Outside holds)
  | [] => .isTrue trivial
  | _ :: tags =>
      have := decidableOutside holds tags
      inferInstanceAs (Decidable (_ ∧ _))

/-- The condition still holds when more text follows. -/
def Lasting (holds : Char → List Char → Bool) : Prop :=
  ∀ c cs more, holds c cs = true → holds c (cs ++ more) = true

section Outside

variable {holds holds' : Char → List Char → Bool} {tags tags' : List (Char × Option Range)}

theorem Outside.append (hlasting : Lasting holds) (h : Outside holds tags)
    (h' : Outside holds tags') : Outside holds (tags ++ tags') := by
  induction tags with
  | nil => exact h'
  | cons tag tags ih =>
      have hbehind : (tags ++ tags').map Prod.fst = tags.map Prod.fst ++ tags'.map Prod.fst :=
        List.map_append
      exact ⟨fun hrange => hbehind ▸ hlasting _ _ _ (h.1 hrange), ih h.2⟩

theorem Outside.mono (himp : ∀ c cs, holds c cs = true → holds' c cs = true)
    (h : Outside holds tags) : Outside holds' tags := by
  induction tags with
  | nil => trivial
  | cons tag tags ih => exact ⟨fun hrange => himp _ _ (h.1 hrange), ih h.2⟩

/-- Nothing is asked of the characters in a range. -/
theorem outside_inside (holds : Char → List Char → Bool) (cs : List Char) (r : Range) :
    Outside holds (cs.map (·, some r)) := by
  induction cs with
  | nil => trivial
  | cons c cs ih => exact ⟨nofun, ih⟩

theorem Outside.not_mem (h : Outside holds tags) {c : Char}
    (hc : ∀ cs, holds c cs = false) : (c, none) ∉ tags := by
  induction tags with
  | nil => exact List.not_mem_nil
  | cons tag tags ih =>
      refine fun hmem => (List.mem_cons.1 hmem).elim ?_ (ih h.2)
      rintro rfl
      simpa [hc] using h.1 rfl

theorem outside_of_not_mem {mark : Char} (h : (mark, none) ∉ tags) :
    Outside (fun c _ => c != mark) tags := by
  induction tags with
  | nil => trivial
  | cons tag tags ih =>
      obtain ⟨c, range⟩ := tag
      rw [List.mem_cons, not_or] at h
      refine ⟨?_, ih h.2⟩
      rintro rfl
      simpa using fun he : c = mark => h.1 (by rw [he])

end Outside

/-- The text is read to its end before the rest, and outside the ranges all of it satisfies a
condition. -/
def ReadsAs (holds : Char → List Char → Bool) (d : Dialect) (cs rest : List Char) : Prop :=
  ∃ tags, Outside holds tags ∧ tagged d.splitter.ranges [] (cs ++ rest) =
    tags ++ tagged d.splitter.ranges [] rest

/-- The text is read to its end without a semicolon or a line break outside the ranges. -/
def Reads (d : Dialect) (cs rest : List Char) : Prop :=
  ReadsAs (fun c _ => c != ';' && c != '\n') d cs rest

section ReadsAs

variable {holds holds' : Char → List Char → Bool} {d : Dialect} {c : Char}
  {cs cs' rest : List Char}

theorem readsAs_nil (holds : Char → List Char → Bool) (d : Dialect) (rest : List Char) :
    ReadsAs holds d [] rest := ⟨[], trivial, rfl⟩

theorem ReadsAs.append (hlasting : Lasting holds) (h : ReadsAs holds d cs (cs' ++ rest))
    (h' : ReadsAs holds d cs' rest) : ReadsAs holds d (cs ++ cs') rest := by
  obtain ⟨tags, houtside, hcs⟩ := h
  obtain ⟨tags', houtside', hcs'⟩ := h'
  refine ⟨tags ++ tags', houtside.append hlasting houtside', ?_⟩
  rw [List.append_assoc, hcs, hcs', List.append_assoc]

/-- The characters that are read are those of the text. -/
theorem map_fst_of_tagged {ranges : List Range} {tags : List (Char × Option Range)}
    (h : tagged ranges [] (cs ++ rest) = tags ++ tagged ranges [] rest) :
    tags.map Prod.fst = cs := by
  have hchars := congrArg (List.map Prod.fst) h
  rw [List.map_append, tagged_chars, tagged_chars] at hchars
  exact (List.append_cancel_right hchars).symm

theorem ReadsAs.mono (himp : ∀ c cs, holds c cs = true → holds' c cs = true)
    (h : ReadsAs holds d cs rest) : ReadsAs holds' d cs rest := by
  obtain ⟨tags, houtside, hcs⟩ := h
  exact ⟨tags, houtside.mono himp, hcs⟩

theorem Reads.nil (d : Dialect) (rest : List Char) : Reads d [] rest := readsAs_nil _ d rest

theorem Reads.append (h : Reads d cs (cs' ++ rest)) (h' : Reads d cs' rest) :
    Reads d (cs ++ cs') rest := ReadsAs.append (fun _ _ _ h => h) h h'

theorem Reads.cons (h : Reads d [c] (cs ++ rest)) (h' : Reads d cs rest) :
    Reads d (c :: cs) rest := .append h h'

/-- One move of the automaton that comes back outside. -/
theorem Reads.copied (hc : (c != ';' && c != '\n') = true)
    (h : move d.splitter.ranges [] (c :: rest) = ⟨1, none, []⟩) : Reads d [c] rest := by
  refine ⟨[(c, none)], ⟨fun _ => hc, trivial⟩, ?_⟩
  rw [List.singleton_append, tagged_of_ne_nil _ _ (List.cons_ne_nil c rest), h]
  rfl

end ReadsAs

/-- Every range begins with a mark other than the semicolon, and with two hyphens if with
one. -/
theorem opening_isMark (d : Dialect) : ∀ r ∈ d.splitter.ranges,
    r.opening.chars.head?.any (fun c => isMark c && c != ';') ∧
      (r.opening.chars.head? = some '-' → ['-', '-'] <+: r.opening.chars) := by
  cases d <;> decide

theorem move_of_no_opening {d : Dialect} {cs : List Char}
    (h : ∀ r ∈ d.splitter.ranges, r.opening.chars.isPrefixOf cs = false) :
    move d.splitter.ranges [] cs = ⟨1, none, []⟩ := by
  have hnone : d.splitter.ranges.find? (fun r => r.opening.chars.isPrefixOf cs) = none :=
    List.find?_eq_none.2 fun r hr => by simp [h r hr]
  rw [move, hnone]

/-- No range opens at a character that is no mark, nor at a semicolon. -/
theorem move_plain_char (d : Dialect) {c : Char} (hc : (isMark c && c != ';') = false)
    (rest : List Char) : move d.splitter.ranges [] (c :: rest) = ⟨1, none, []⟩ := by
  refine move_of_no_opening fun r hr => ?_
  have hmark := (opening_isMark d r hr).1
  rw [Bool.eq_false_iff, Ne, List.isPrefixOf_iff_prefix]
  intro hoccurs
  cases hopen : r.opening.chars with
  | nil => exact r.opening.ne_nil hopen
  | cons o more =>
      rw [hopen, List.cons_prefix_cons] at hoccurs
      rw [hopen, List.head?_cons, Option.any_some, hoccurs.1, hc] at hmark
      cases hmark

theorem tagged_semicolon (d : Dialect) (rest : List Char) :
    tagged d.splitter.ranges [] (';' :: rest) =
      (';', none) :: tagged d.splitter.ranges [] rest := by
  rw [tagged_of_ne_nil _ _ (List.cons_ne_nil _ _), move_plain_char d (by decide)]
  rfl

theorem isMark_of_isQuiet {c : Char} (h : isQuiet c = true) : isMark c = false := by
  simpa using (Bool.and_eq_true_iff.1 h).1

/-- A quiet character opens no range and ends neither a statement nor a line. -/
theorem isQuiet_eq_true {c : Char} (h : isQuiet c = true) :
    (isMark c && c != ';') = false ∧ (c != ';' && c != '\n') = true := by
  have hmark := isMark_of_isQuiet h
  refine ⟨by simp [hmark], Bool.and_eq_true_iff.2 ⟨?_, (Bool.and_eq_true_iff.1 h).2⟩⟩
  rw [bne_iff_ne]
  rintro rfl
  exact absurd hmark (by decide)

/-- A hyphen is copied unless another one follows. -/
theorem reads_hyphen (d : Dialect) {rest : List Char} (h : rest.head? ≠ some '-') :
    Reads d ['-'] rest := by
  refine .copied (by decide) (move_of_no_opening fun r hr => ?_)
  have hhyphens := (opening_isMark d r hr).2
  rw [Bool.eq_false_iff, Ne, List.isPrefixOf_iff_prefix]
  intro hoccurs
  cases hopen : r.opening.chars with
  | nil => exact r.opening.ne_nil hopen
  | cons o more =>
      rw [hopen] at hoccurs hhyphens
      obtain ⟨after, hafter⟩ := (hhyphens (by simp [(List.cons_prefix_cons.1 hoccurs).1])).trans
        hoccurs
      obtain rfl : '-' :: after = rest := by simpa using hafter
      exact h rfl

section Quoted

variable {d : Dialect} {mark : Char}

/-- The character that opens a quoted range, given the one that closes it. -/
def opener (mark : Char) : Char := if mark = ']' then '[' else mark

theorem isMark_opener {mark : Char} (h : isQuote mark = true) : isMark (opener mark) = true := by
  rw [opener]
  split
  · decide
  · simp [isMark, h]

/-- The range between them. -/
def quotedTo (mark : Char) : Range := .doubled (Code.of (opener mark) []) (Code.of mark [])

/-- The dialect opens a quoted range that ends with the mark, whatever follows. -/
def Quotes (d : Dialect) (mark : Char) : Prop :=
  ∀ rest, move d.splitter.ranges [] (opener mark :: rest) =
    ⟨1, some (quotedTo mark), [quotedTo mark]⟩

theorem quotes_single (d : Dialect) : Quotes d '\x27' := fun rest => by cases d <;> rfl

/-- A text in which the mark stands in pairs only. -/
inductive Doubled (mark : Char) : List Char → Prop
  | nil : Doubled mark []
  | pair {cs} (next : Doubled mark cs) : Doubled mark (mark :: mark :: cs)
  | other {c cs} (hc : c ≠ mark) (next : Doubled mark cs) : Doubled mark (c :: cs)

theorem doubled_of_not_mem {cs : List Char} (h : mark ∉ cs) : Doubled mark cs := by
  induction cs with
  | nil => exact .nil
  | cons c cs ih =>
      simp only [List.mem_cons, not_or] at h
      exact .other (Ne.symm h.1) (ih h.2)

theorem move_inside_other {c : Char} (hc : c ≠ mark) (ranges : List Range)
    (rest : List Char) : move ranges [quotedTo mark] (c :: rest) =
      ⟨1, some (quotedTo mark), [quotedTo mark]⟩ := by
  simp [move, moveInside, quotedTo, Code.of, List.isPrefixOf, Ne.symm hc]

theorem move_inside_pair (ranges : List Range) (rest : List Char) :
    move ranges [quotedTo mark] (mark :: mark :: rest) =
      ⟨2, some (quotedTo mark), [quotedTo mark]⟩ := by
  simp [move, moveInside, quotedTo, Code.of, Code.length, List.isPrefixOf]

theorem move_inside_lone {rest : List Char} (h : rest.head? ≠ some mark)
    (ranges : List Range) : move ranges [quotedTo mark] (mark :: rest) =
      ⟨1, some (quotedTo mark), []⟩ := by
  have hlone : [mark].isPrefixOf rest = false := by
    cases rest with
    | nil => rfl
    | cons c rest =>
        have hc : mark ≠ c := fun he => h (by simp [he])
        simp [List.isPrefixOf, hc]
  simp [move, moveInside, quotedTo, Code.of, Code.length, List.isPrefixOf, hlone]

theorem tagged_inside_other {c : Char} (hc : c ≠ mark) (ranges : List Range) (rest : List Char) :
    tagged ranges [quotedTo mark] (c :: rest) =
      (c, some (quotedTo mark)) :: tagged ranges [quotedTo mark] rest := by
  rw [tagged_of_ne_nil _ _ (List.cons_ne_nil _ _), move_inside_other hc]
  rfl

theorem tagged_inside_pair (ranges : List Range) (rest : List Char) :
    tagged ranges [quotedTo mark] (mark :: mark :: rest) = (mark, some (quotedTo mark)) ::
      (mark, some (quotedTo mark)) :: tagged ranges [quotedTo mark] rest := by
  rw [tagged_of_ne_nil _ _ (List.cons_ne_nil _ _), move_inside_pair]
  rfl

theorem tagged_inside_lone {rest : List Char} (h : rest.head? ≠ some mark) (ranges : List Range) :
    tagged ranges [quotedTo mark] (mark :: rest) =
      (mark, some (quotedTo mark)) :: tagged ranges [] rest := by
  rw [tagged_of_ne_nil _ _ (List.cons_ne_nil _ _), move_inside_lone h]
  rfl

/-- A quoted range is read up to the mark behind the pairs. -/
theorem tagged_doubled {body rest : List Char} (hbody : Doubled mark body)
    (hrest : rest.head? ≠ some mark) (ranges : List Range) :
    tagged ranges [quotedTo mark] (body ++ mark :: rest) =
      (body ++ [mark]).map (·, some (quotedTo mark)) ++ tagged ranges [] rest := by
  induction hbody with
  | nil => exact tagged_inside_lone hrest ranges
  | pair next ih =>
      rw [List.cons_append, List.cons_append, tagged_inside_pair, ih]
      rfl
  | other hc next ih =>
      rw [List.cons_append, tagged_inside_other hc, ih]
      rfl

theorem tagged_quoted (hmark : Quotes d mark) {body rest : List Char}
    (hbody : Doubled mark body) (hrest : rest.head? ≠ some mark) :
    tagged d.splitter.ranges [] (opener mark :: (body ++ mark :: rest)) =
      (opener mark :: (body ++ [mark])).map (·, some (quotedTo mark)) ++
        tagged d.splitter.ranges [] rest := by
  rw [tagged_of_ne_nil _ _ (List.cons_ne_nil _ _), hmark]
  simp only [List.take_succ_cons, List.take_zero, List.drop_succ_cons, List.drop_zero,
    tagged_doubled hbody hrest]
  rfl

theorem reads_quoted (hmark : Quotes d mark) {body rest : List Char}
    (hbody : Doubled mark body) (hrest : rest.head? ≠ some mark) :
    Reads d (opener mark :: (body ++ [mark])) rest := by
  refine ⟨(opener mark :: (body ++ [mark])).map (·, some (quotedTo mark)),
    outside_inside _ _ _, ?_⟩
  rw [List.cons_append, List.append_assoc, List.singleton_append]
  exact tagged_quoted hmark hbody hrest

end Quoted

end SchemaChange.Script
