import SchemaChange.Proofs.Script.BlockScan

/-!
# Scripts as sequences of lexemes

Where blocks stay whole, nothing counts in a script but its lexemes outside the ranges and its
lines with a slash alone. The scan cuts a script where the state behind these says so, and what
it gives to every part is their characters.
-/
namespace SchemaChange.Script

/-! ## The parts of a scan -/

/-- The characters of a part with their ranges, and how the part ends. -/
def Part.tagged (p : Part) : List (Char × Option Range) × BatchKind :=
  (p.texts.flatMap fun text => text.1.map (·, text.2), p.kind)

/-- The parts that some events give, told by their characters. -/
def taggedParts (es : List Event) :
    (List (Char × Option Range) × BatchKind) × List (List (Char × Option Range) × BatchKind) :=
  ((parts es).1.tagged, (parts es).2.map Part.tagged)

section Parts

variable {es es' : List Event}

theorem taggedParts_text (chars : List Char) (range : Option Range) (es : List Event) :
    taggedParts (.text chars range :: es) =
      ((chars.map (·, range) ++ (taggedParts es).1.1, (taggedParts es).1.2),
        (taggedParts es).2) := rfl

theorem taggedParts_cut (separator : List Char) (kind : BatchKind) (es : List Event) :
    taggedParts (.cut separator kind :: es) =
      (([], kind), (taggedParts es).1 :: (taggedParts es).2) := rfl

theorem taggedParts_cons (e : Event) (h : taggedParts es = taggedParts es') :
    taggedParts (e :: es) = taggedParts (e :: es') := by
  cases e with
  | text chars range => rw [taggedParts_text, taggedParts_text, h]
  | cut separator kind => rw [taggedParts_cut, taggedParts_cut, h]

theorem taggedParts_append (before : List Event) (h : taggedParts es = taggedParts es') :
    taggedParts (before ++ es) = taggedParts (before ++ es') := by
  induction before with
  | nil => exact h
  | cons e before ih => exact taggedParts_cons e ih

/-- Texts of one range that follow each other are one text. -/
theorem taggedParts_join (cs cs' : List Char) (range : Option Range) (es : List Event) :
    taggedParts (.text (cs ++ cs') range :: es) =
      taggedParts (.text cs range :: .text cs' range :: es) := by
  simp [taggedParts_text]

end Parts

/-! ## Lexemes with their characters -/

/-- The character that the reading of blocks sees. -/
def shown (tag : Char × Option Range) : Char := if tag.2.isNone then tag.1 else '"'

@[simp] theorem outside_cons (tag : Char × Option Range) (tags : List (Char × Option Range)) :
    outside (tag :: tags) = shown tag :: outside tags := rfl

/-- What a script holds for the reading of blocks. -/
inductive Item where
  | lexeme (l : Lexeme) (chars : List Char) (range : Option Range)
  /-- A line with a slash alone. -/
  | slashLine (chars : List Char)

/-- The lexeme of an item. -/
def Item.kind : Item → Lexeme
  | .lexeme l _ _ => l
  | .slashLine _ => .other

def Item.chars : Item → List Char
  | .lexeme _ chars _ | .slashLine chars => chars

/-- The lexemes of a text with their characters. -/
def spelled (previous : Option Char) (tags : List (Char × Option Range)) : List Item :=
  match tags with
  | [] => []
  | tag :: rest =>
      let (l, length) := leading previous (shown tag) (outside rest)
      .lexeme l (((tag :: rest).take length).map Prod.fst) tag.2 ::
        spelled (some (shown tag)) (rest.drop (length - 1))
termination_by tags.length
decreasing_by simp only [List.length_cons, List.length_drop]; omega

/-- A line that holds a slash alone is read as such. -/
def lineItems (line : List (Char × Option Range)) : List Item :=
  if Text.trimmed (outside line) = ['/'] then [.slashLine (line.map Prod.fst)]
  else spelled none line

/-- Lines behind others. -/
def laterItems (lines : List (List (Char × Option Range))) : List Item :=
  lines.flatMap fun line => .lexeme .other ['\n'] none :: lineItems line

/-- The items of a script from a place in a line on. -/
def itemsFrom (previous : Option Char) (tags : List (Char × Option Range)) : List Item :=
  match Text.splitOn ('\n', none) tags with
  | [] => []
  | line :: lines => spelled previous line ++ laterItems lines

/-- The items of a script. -/
def scriptItems (tags : List (Char × Option Range)) : List Item :=
  match Text.splitOn ('\n', none) tags with
  | [] => []
  | line :: lines => lineItems line ++ laterItems lines

/-- A semicolon that ends a statement, behind some text. -/
def endOf (s : BlockState) (cs : List Char) : List Event :=
  if s.containsBlock then [.text (cs ++ [';']) none, .cut [] .statement]
  else [.text cs none, .cut [';'] .statement]

/-- The events of a script, told by its items. -/
def itemEvents (s : BlockState) : List Item → List Event
  | [] => []
  | .slashLine chars :: items => .cut chars .statement :: itemEvents {} items
  | .lexeme l chars range :: items =>
      if l = .semicolon ∧ s.isClosed then endOf s [] ++ itemEvents {} items
      else .text chars range :: itemEvents (s.read l) items

section Spelled

variable {s : BlockState} {previous other : Option Char} {cs : List Char}
  {tags more : List (Char × Option Range)} {later : List Item}

@[simp] theorem spelled_nil (previous : Option Char) : spelled previous [] = [] := by
  rw [spelled]

theorem spelled_cons (previous : Option Char) (tag : Char × Option Range)
    (rest : List (Char × Option Range)) {l : Lexeme} {length : Nat}
    (h : leading previous (shown tag) (outside rest) = (l, length)) :
    spelled previous (tag :: rest) =
      .lexeme l (((tag :: rest).take length).map Prod.fst) tag.2 ::
        spelled (some (shown tag)) (rest.drop (length - 1)) := by
  rw [spelled, h]

/-- What stands before a text matters in two respects only. -/
theorem spelled_congr (hword : previous.any isWordChar = other.any isWordChar)
    (hpoint : previous = some '.' ↔ other = some '.') (tags : List (Char × Option Range)) :
    spelled previous tags = spelled other tags := by
  cases tags with
  | nil => simp
  | cons tag rest => simp only [spelled, leading, hword, hpoint]

/-- A character of a range, like one that begins no word, is passed over. -/
theorem spelled_other {tag : Char × Option Range} (hsemi : shown tag ≠ ';')
    (hstart : isWordStart (shown tag) = false) (previous : Option Char)
    (rest : List (Char × Option Range)) : spelled previous (tag :: rest) =
      .lexeme .other [tag.1] tag.2 :: spelled (some (shown tag)) rest := by
  rw [spelled_cons previous tag rest (leading_other hsemi hstart previous (outside rest))]
  rfl

theorem Stops.spelled (h : Stops (outside tags)) (previous : Option Char) :
    spelled previous tags = Script.spelled none tags := by
  cases tags with
  | nil => simp
  | cons tag rest =>
      have hsemi : shown tag ≠ ';' ∧ isWordStart (shown tag) = false := by
        rcases h (shown tag) rfl with he | he <;> rw [he] <;> decide
      rw [spelled_other hsemi.1 hsemi.2, spelled_other hsemi.1 hsemi.2]

/-- Ranges are passed over. -/
theorem taggedParts_ranged (s : BlockState) (previous : Option Char) (r : Range) (hcs : cs ≠ [])
    (more : List (Char × Option Range)) (later : List Item) :
    taggedParts (itemEvents s (spelled previous (cs.map (·, some r) ++ more) ++ later)) =
      taggedParts (.text cs (some r) :: itemEvents s (spelled none more ++ later)) := by
  induction cs generalizing previous with
  | nil => exact absurd rfl hcs
  | cons c cs ih =>
      have hquote : spelled (some '"') more = spelled none more :=
        spelled_congr (by decide) (by decide) more
      have hshown : shown (c, some r) = '"' := rfl
      rw [List.map_cons, List.cons_append, spelled_other (by rw [hshown]; decide)
        (by rw [hshown]; decide), hshown, List.cons_append, itemEvents, if_neg (by simp)]
      have hsplit : c :: cs = [c] ++ cs := rfl
      by_cases hnil : cs = []
      · subst hnil
        rw [List.map_nil, List.nil_append, hquote]
        rfl
      · rw [hsplit, taggedParts_join]
        exact taggedParts_cons _ (ih _ hnil)

/-- The first lexeme of a plain text. -/
theorem spelled_plain {c : Char} {rest : List Char} {l : Lexeme} {taken : Nat}
    (h : leading previous c (rest ++ outside more) = (l, taken)) (hpos : 1 ≤ taken)
    (hle : taken ≤ (c :: rest).length) : spelled previous ((c :: rest).map (·, none) ++ more) =
      .lexeme l ((c :: rest).take taken) none ::
        spelled (some c) ((rest.drop (taken - 1)).map (·, none) ++ more) := by
  have hshown : leading previous (shown (c, none)) (outside (rest.map (·, none) ++ more)) =
      (l, taken) := by rwa [outside_append, outside_plain]
  have hbehind : taken - 1 ≤ rest.length := by
    rw [List.length_cons] at hle
    omega
  have htake : (((c :: rest).map (·, (none : Option Range)) ++ more).take taken).map Prod.fst =
      (c :: rest).take taken := by
    rw [List.take_append_of_le_length (by simpa using hle), ← List.map_take, List.map_map]
    exact List.map_id _
  rw [List.map_cons, List.cons_append] at htake ⊢
  rw [spelled_cons previous _ _ hshown, htake,
    List.drop_append_of_le_length (by simpa using hbehind), ← List.map_drop]
  rfl

/-- Following the words of a plain text is reading its lexemes, up to the semicolon that ends
the statement or to the place that ends the last word. -/
theorem taggedParts_plain (s : BlockState) (previous : Option Char) (hline : '\n' ∉ cs)
    (hmore : Stops (outside more)) (later : List Item) :
    taggedParts (itemEvents s (spelled previous (cs.map (·, none) ++ more) ++ later)) =
      match followWords s previous cs with
      | (s', none) => taggedParts (.text cs none :: itemEvents s' (spelled none more ++ later))
      | (s', some n) => taggedParts (endOf s' (cs.take n) ++
          itemEvents {}
            (spelled (some ';') ((cs.drop (n + 1)).map (·, none) ++ more) ++ later)) := by
  -- the text of the lexeme goes to the text that is read next
  have joined : ∀ (s' : BlockState) (cs cs' : List Char) (es : List Event),
      taggedParts (.text cs none :: (endOf s' cs' ++ es)) =
        taggedParts (endOf s' (cs ++ cs') ++ es) := by
    intro s' cs cs' es
    rw [endOf, endOf]
    split
    · simp [taggedParts_text]
    · simp [taggedParts_text]
  fun_induction followWords s previous cs with
  | case1 s previous => rw [List.map_nil, List.nil_append, hmore.spelled previous]; rfl
  | case2 s previous c rest hc =>
      obtain ⟨rfl, hclosed⟩ := hc
      have hleading : leading previous ';' (rest ++ outside more) = (.semicolon, 1) := if_pos rfl
      rw [spelled_plain hleading (Nat.le_refl 1) (by simp), List.cons_append, itemEvents,
        if_pos ⟨rfl, hclosed⟩]
      rfl
  | case3 s previous c rest hc hstart word length hword following next joined' hread taken
      s₁ found hfollow ih =>
      obtain ⟨l, hleading, hsemi, hnext, htaken, hle, e, he, hchar⟩ :=
        exists_leading hstart hword rfl hread hline hmore (rfl : taken = _)
      obtain ⟨hword', hpoint⟩ := alike_of_isWordChar
        (isWordChar_of_isWordStart (Bool.and_eq_true_iff.1 hstart).1) hchar
      have hbehind : rest.drop (taken - 1) = (c :: rest).drop taken := by
        rw [← List.drop_succ_cons, Nat.sub_add_cancel htaken]
      have hstep := ih fun h => hline (List.mem_cons_of_mem c (List.mem_of_mem_drop h))
      rw [hfollow] at hstep
      rw [spelled_plain hleading htaken hle, List.cons_append, itemEvents,
        if_neg fun h => hsemi h.1, hnext, spelled_congr hword' hpoint, ← he]
      cases found with
      | none =>
          rw [taggedParts_cons _ hstep, ← taggedParts_join, hbehind, List.take_append_drop]
          rfl
      | some n =>
          rw [taggedParts_cons _ hstep, joined, hbehind, ← List.take_add, List.drop_drop]
          rfl
  | case4 s previous c rest hc hstart s₁ found hfollow ih =>
      obtain ⟨l, hleading, hstep, hnone⟩ : ∃ l, leading previous c (rest ++ outside more) = (l, 1) ∧
          s.read l = s ∧ ¬(l = .semicolon ∧ s.isClosed) := by
        by_cases hsemi : c = ';'
        · exact ⟨.semicolon, if_pos hsemi, rfl, fun h => hc ⟨hsemi, h.2⟩⟩
        · exact ⟨.other, by rw [leading, if_neg hsemi, if_neg hstart], rfl, by simp⟩
      have hothers := ih fun h => hline (List.mem_cons_of_mem c h)
      rw [hfollow] at hothers
      rw [spelled_plain hleading (Nat.le_refl 1) (by simp), List.cons_append, itemEvents,
        if_neg hnone, hstep, Nat.sub_self, List.drop_zero]
      cases found with
      | none =>
          rw [taggedParts_cons _ hothers, ← taggedParts_join]
          rfl
      | some n =>
          rw [taggedParts_cons _ hothers, joined]
          simp only [Option.map_some, Nat.add_comm 1 n, List.take_succ_cons, List.drop_succ_cons]
          rfl

end Spelled

end SchemaChange.Script
