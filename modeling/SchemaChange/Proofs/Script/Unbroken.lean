import SchemaChange.Proofs.Script.Calm
import SchemaChange.Proofs.Script.Separated

/-!
# Scripts without a separator

A script is one batch if behind every line break outside the ranges a line begins that has not
the form of a separator. What begins such a line tells so: another line break, or a character
that is neither blank nor the first letter of the word GO.
-/
namespace SchemaChange.Script

/-- A character that begins a line which is no separator. -/
def isLeading (c : Char) : Bool := !Text.isBlank c && c.toUpper != 'G'

theorem isBlank_of_isLeading {c : Char} (h : isLeading c = true) : Text.isBlank c = false := by
  simpa using (Bool.and_eq_true_iff.1 h).1

/-- The first line is seen to be no separator, whatever follows the text. -/
def startsCalm : List Char → Bool
  | [] => false
  | c :: cs => c == '\n' || isLeading c || (Text.isBlank c && startsCalm cs)

/-- No separator begins behind the character. -/
def isUnbroken (c : Char) (cs : List Char) : Bool := c != '\n' || startsCalm cs

/-- The text is read to its end before the rest, and no separator begins behind a line break of
it. -/
def Unbroken (d : Dialect) (cs rest : List Char) : Prop := ReadsAs isUnbroken d cs rest

theorem startsCalm_append {cs : List Char} (h : startsCalm cs = true) (more : List Char) :
    startsCalm (cs ++ more) = true := by
  induction cs with
  | nil => cases h
  | cons c cs ih =>
      simp only [startsCalm, List.cons_append, Bool.or_eq_true, Bool.and_eq_true] at h ⊢
      exact h.imp_right fun h => ⟨h.1, ih h.2⟩

theorem lasting_isUnbroken : Lasting isUnbroken := fun c cs more h => by
  simp only [isUnbroken, Bool.or_eq_true] at h ⊢
  exact h.imp_right (startsCalm_append · more)

section Unbroken

variable {d : Dialect} {cs cs' rest : List Char}

theorem Reads.unbroken (h : Reads d cs rest) : Unbroken d cs rest :=
  ReadsAs.mono (fun c cs hc => by simp [isUnbroken, (Bool.and_eq_true_iff.1 hc).2]) h

theorem Unbroken.append (h : Unbroken d cs (cs' ++ rest)) (h' : Unbroken d cs' rest) :
    Unbroken d (cs ++ cs') rest := ReadsAs.append lasting_isUnbroken h h'

/-- A line break before a text whose first line is no separator. -/
theorem Unbroken.newline (h : Unbroken d cs rest) (hcalm : startsCalm cs = true) :
    Unbroken d ('\n' :: cs) rest := by
  obtain ⟨tags, houtside, htags⟩ := h
  have hbreak : isUnbroken '\n' (tags.map Prod.fst) = true := by
    rw [map_fst_of_tagged htags]
    exact hcalm
  refine ⟨('\n', none) :: tags, ⟨fun _ => hbreak, houtside⟩, ?_⟩
  rw [List.cons_append, tagged_of_ne_nil _ _ (List.cons_ne_nil _ _),
    move_plain_char d (by decide)]
  simp [htags]

theorem unbroken_semicolon (d : Dialect) (rest : List Char) : Unbroken d [';'] rest :=
  ⟨[(';', none)], ⟨fun _ => rfl, trivial⟩, tagged_semicolon d rest⟩

/-- A comment up to the end of a line. -/
theorem unbroken_comment (d : Dialect) {note : List Char} (hnote : '\n' ∉ note)
    (hrest : Text.EndsLine rest) : Unbroken d ('-' :: '-' :: note) rest := by
  have hopens : ∀ cs, move d.splitter.ranges [] ('-' :: '-' :: cs) =
      ⟨2, some dashComment, [dashComment]⟩ := fun cs => by cases d <;> rfl
  have hcomment : tagged d.splitter.ranges [dashComment] (note ++ rest) =
      note.map (·, some dashComment) ++ tagged d.splitter.ranges [] rest :=
    tagged_lineComment hnote hrest
  refine ⟨('-' :: '-' :: note).map (·, some dashComment), outside_inside _ _ _, ?_⟩
  rw [List.cons_append, List.cons_append, tagged_of_ne_nil _ _ (List.cons_ne_nil _ _), hopens]
  simp [hcomment]

/-- Fixed SQL over several lines that neither begins nor ends in a quote. Between its literals
stand quiet characters, semicolons, and line breaks before lines that are no separators. -/
def isLined (cs : List Char) : Bool :=
  closesLiterals (fun c cs => (!isMark c || c == ';') && isUnbroken c cs) false cs &&
    cs.head?.any (!isQuote ·) && cs.getLast?.any (!isQuote ·)

theorem unbroken_of_isLined (d : Dialect) (h : isLined cs = true) (rest : List Char) :
    Unbroken d cs rest := by
  simp only [isLined, Bool.and_eq_true] at h
  obtain ⟨⟨hcloses, -⟩, hlast⟩ := h
  refine ReadsAs.mono (fun c cs hc => (Bool.and_eq_true_iff.1 hc).2)
    (readsAs_of_closesLiterals (fun c cs hc => ?_) d hcloses fun hquote => ?_)
  · have hmark := (Bool.and_eq_true_iff.1 hc).1
    cases hm : isMark c <;> simp_all
  · rw [hquote] at hlast
    exact absurd hlast (by decide)

theorem apart_of_isLined (h : isLined cs = true) : Apart cs ∧ cs ≠ [] := by
  simp only [isLined, Bool.and_eq_true] at h
  obtain ⟨⟨-, hhead⟩, -⟩ := h
  refine ⟨fun c hc => by simpa [hc] using hhead, ?_⟩
  rintro rfl
  cases hhead

/-- The text is read so before anything but a quote. -/
def Lined (d : Dialect) (cs : List Char) : Prop := ∀ rest, Apart rest → Unbroken d cs rest

theorem lined_nil (d : Dialect) : Lined d [] := fun rest _ => readsAs_nil _ d rest

theorem Lined.append (hcs : Lined d cs) (hcs' : Lined d cs') (hapart : Apart cs') :
    Lined d (cs ++ cs') := by
  refine fun rest hrest => .append (hcs _ ?_) (hcs' rest hrest)
  cases cs' with
  | nil => exact hrest
  | cons c cs' => exact hapart.append (List.cons_ne_nil c cs') rest

/-- Fixed SQL between two texts. -/
theorem Lined.then {fixed : List Char} (hcs : Lined d cs) (hfixed : isLined fixed = true)
    (hcs' : Lined d cs') : Lined d (cs ++ (fixed ++ cs')) := by
  obtain ⟨hapart, hne⟩ := apart_of_isLined hfixed
  refine hcs.append (fun rest hrest => ?_) (hapart.append hne cs')
  exact .append (unbroken_of_isLined d hfixed _) (hcs' rest hrest)

/-- A comment about a subject, on a line of its own behind an empty line. -/
theorem Lined.comment {note subject : List Char} (hnote : '\n' ∉ note ++ subject)
    (hcs : Lined d cs) (hhead : cs.head? = some '\n') :
    Lined d ('\n' :: '\n' :: '-' :: '-' :: (note ++ (subject ++ cs))) := by
  intro rest hrest
  have hends : Text.EndsLine (cs ++ rest) := fun c hc => by
    rw [List.head?_append, hhead] at hc
    exact (Option.some.inj hc).symm
  have hcomment : Unbroken d ('-' :: '-' :: (note ++ subject) ++ cs) rest :=
    .append (unbroken_comment d hnote hends) (hcs rest hrest)
  rw [List.cons_append, List.cons_append, List.append_assoc] at hcomment
  exact .newline (.newline hcomment rfl) rfl

end Unbroken

section Lines

variable {line digits : List Char}

theorem not_startsCalm_of_blanks {lead : List Char} (hlead : ∀ c ∈ lead, Text.isBlank c)
    (hline : '\n' ∉ lead) {behind : List Char} (hbehind : startsCalm behind = false) :
    startsCalm (lead ++ behind) = false := by
  induction lead with
  | nil => exact hbehind
  | cons c lead ih =>
      simp only [List.mem_cons, not_or] at hline
      have hc : Text.isBlank c = true := hlead c (List.mem_cons_self ..)
      rw [List.cons_append, startsCalm, isLeading, hc,
        ih (fun c hc => hlead c (List.mem_cons_of_mem _ hc)) hline.2]
      simpa using Ne.symm hline.1

/-- A separator is seen where its line begins. -/
theorem GoForm.not_startsCalm (h : GoForm line digits) (hline : '\n' ∉ line) (tail : List Char) :
    startsCalm (line ++ tail) = false := by
  obtain ⟨lead, g, o, count, trail, comment, rfl, hlead, hg, -⟩ := h.parts
  have hblank := (letter_of_toUpper hg (.inl rfl)).2
  have hbreak : g ≠ '\n' := fun he => hline (by simp [he])
  rw [List.append_assoc, List.append_assoc]
  refine not_startsCalm_of_blanks hlead (fun hmem => hline (by simp [hmem])) ?_
  simp [startsCalm, isLeading, hbreak, hblank, hg]

theorem not_beginsSeparated {cs : List Char} (h : startsCalm cs = true) : ¬ BeginsSeparated cs := by
  rintro ⟨digits, hform⟩
  obtain ⟨line, lines, hsplit⟩ := Text.exists_splitOn '\n' cs
  have hline : '\n' ∉ line := Text.not_mem_of_mem_splitOn (hsplit ▸ List.mem_cons_self ..)
  rw [Text.takeWhile_of_splitOn hsplit] at hform
  rw [Text.splitOn_flatten hsplit, hform.not_startsCalm hline] at h
  cases h

theorem unseparated_of_outside {tags : List (Char × Option Range)}
    (h : Outside isUnbroken tags) : Unseparated tags := by
  induction tags with
  | nil => trivial
  | cons tag tags ih =>
      obtain ⟨c, range⟩ := tag
      refine ⟨?_, ih h.2⟩
      rintro rfl hrange
      exact not_beginsSeparated (h.1 hrange)

end Lines

/-- A text that is a batch by itself, also on a line of its own behind other text. -/
structure Whole (d : Dialect) (cs : List Char) : Prop where
  lined : Lined d cs
  begins : cs.head?.any isLeading = true
  ends : cs.getLast?.any (!Text.isBlank ·) = true

section Whole

variable {d : Dialect} {cs : List Char}

theorem Whole.trimmed (h : Whole d cs) : Text.trimmed cs = cs := by
  refine Text.trimmed_eq_self (fun c hc => ?_) fun c hc => ?_
  · have hleading := h.begins
    rw [hc] at hleading
    exact isBlank_of_isLeading hleading
  · simpa [hc] using h.ends

theorem startsCalm_of_begins (h : cs.head?.any isLeading = true) : startsCalm cs = true := by
  cases cs with
  | nil => cases h
  | cons c cs =>
      have hc : isLeading c = true := h
      simp [startsCalm, hc]

/-- More text behind a whole one. -/
theorem Whole.more {more : List Char} (h : Whole d cs) (hmore : Lined d more)
    (hapart : Apart more) (hends : more.getLast?.any (!Text.isBlank ·) = true) :
    Whole d (cs ++ more) := by
  obtain ⟨first, hfirst, hleading⟩ := (Option.any_eq_true _ _).1 h.begins
  obtain ⟨last, hlast, hblank⟩ := (Option.any_eq_true _ _).1 hends
  refine ⟨h.lined.append hmore hapart, ?_, ?_⟩
  · simp only [List.head?_append, hfirst, Option.some_or, Option.any_some, hleading]
  · simp only [List.getLast?_append, hlast, Option.some_or, Option.any_some, hblank]

/-- A statement on a line of its own behind others. -/
theorem Whole.append {s : String} (h : Whole d cs) (hs : Whole d s.toList) :
    Whole d (append cs s) := by
  have hne : cs.isEmpty = false := by
    cases cs with
    | nil => cases h.begins
    | cons c cs => rfl
  have hbreak : Lined d ('\n' :: s.toList) := fun rest hrest =>
    (hs.lined rest hrest).newline (startsCalm_of_begins hs.begins)
  have hends : ∀ between : List Char,
      (between ++ s.toList).getLast?.any (!Text.isBlank ·) = true := fun between => by
    obtain ⟨last, hlast, hblank⟩ := (Option.any_eq_true _ _).1 hs.ends
    simp only [List.getLast?_append, hlast, Option.some_or, Option.any_some, hblank]
  simp only [Script.append, hne, Bool.false_eq_true, if_false, List.append_assoc]
  split
  · exact h.more hbreak (apart_cons (by decide) _) (hends _)
  · have hlater : Lined d ([';'] ++ '\n' :: s.toList) := fun rest hrest =>
      .append (unbroken_semicolon d _) (hbreak rest hrest)
    exact h.more hlater (apart_cons (by decide) _) (hends _)

/-- Statements that are joined are one batch. -/
theorem whole_separated {s : String} {statements : List String}
    (h : ∀ s' ∈ s :: statements, Whole d s'.toList) :
    Whole d (separated (s :: statements)).toList := by
  have hfold : ∀ {written : List Char} {statements : List String}, Whole d written →
      (∀ s' ∈ statements, Whole d s'.toList) → Whole d (statements.foldl append written) := by
    intro written statements hwritten hstatements
    induction statements generalizing written with
    | nil => exact hwritten
    | cons s' statements ih =>
        exact ih (hwritten.append (hstatements s' (List.mem_cons_self ..)))
          fun s'' hs'' => hstatements s'' (List.mem_cons_of_mem _ hs'')
  have hfirst : append [] s = s.toList := rfl
  rw [separated, String.toList_ofList, List.foldl_cons, hfirst]
  exact hfold (h s (List.mem_cons_self ..)) fun s' hs' => h s' (List.mem_cons_of_mem _ hs')

/-- A whole text is one batch where GO lines separate. -/
theorem Whole.split (hd : d.splitter.separator = .go) {text : String} (h : Whole d text.toList) :
    (d.splitter.withStripComments false).split text = [⟨text, .statement⟩] := by
  obtain ⟨tags, houtside, htags⟩ := h.lined [] apart_nil
  rw [List.append_nil, tagged_nil, List.append_nil] at htags
  have hne : text.toList ≠ [] := by
    intro hnil
    have hbegins := h.begins
    rw [hnil] at hbegins
    cases hbegins
  have hcalm : Calm (tagged d.splitter.ranges [] text.toList) := by
    refine ⟨?_, htags ▸ unseparated_of_outside houtside⟩
    rw [tagged_chars]
    exact not_beginsSeparated (startsCalm_of_begins h.begins)
  rw [hcalm.split hd, batchOf?_of_trimmed h.trimmed hne, String.ofList_toList]
  rfl

/-- Texts that are batches by themselves are one batch when they are joined. -/
theorem split_separated (hd : d.splitter.separator = .go) {texts : List String}
    (h : ∀ s ∈ texts, Whole d s.toList) :
    (d.splitter.withStripComments false).split (separated texts) =
      if separated texts = "" then [] else [⟨separated texts, .statement⟩] := by
  cases texts with
  | nil =>
      cases d with
      | sqlServer | sqlite => decide +kernel
      | _ => cases hd
  | cons s texts =>
      have hwhole := whole_separated h
      have hne : separated (s :: texts) ≠ "" := fun hempty => by
        have hbegins := hwhole.begins
        rw [hempty] at hbegins
        cases hbegins
      rw [if_neg hne]
      exact hwhole.split hd

end Whole

end SchemaChange.Script
