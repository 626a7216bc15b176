import SchemaChange.Proofs.Script.Comments
import SchemaChange.Proofs.Script.Items

/-!
# The scan follows the items

What the scan of a script line by line gives to the batches is what the items of the script
give: a range is one text whatever lines it spans, a line with a slash alone cuts, and so does
the semicolon that ends a statement.
-/
namespace SchemaChange.Script

section Items

variable {s : BlockState} {previous : Option Char} {cs : List Char}
  {tags more : List (Char × Option Range)}

theorem itemsFrom_append (hbreak : ('\n', none) ∉ tags) {line : List (Char × Option Range)}
    {lines : List (List (Char × Option Range))}
    (hmore : Text.splitOn ('\n', none) more = line :: lines) (previous : Option Char) :
    itemsFrom previous (tags ++ more) = spelled previous (tags ++ line) ++ laterItems lines := by
  rw [itemsFrom, Text.splitOn_append hbreak hmore]

theorem itemsFrom_eq {line : List (Char × Option Range)}
    {lines : List (List (Char × Option Range))}
    (htags : Text.splitOn ('\n', none) tags = line :: lines) (previous : Option Char) :
    itemsFrom previous tags = spelled previous line ++ laterItems lines := by
  rw [itemsFrom, htags]

theorem scriptItems_eq {line : List (Char × Option Range)}
    {lines : List (List (Char × Option Range))}
    (htags : Text.splitOn ('\n', none) tags = line :: lines) :
    scriptItems tags = lineItems line ++ laterItems lines := by
  rw [scriptItems, htags]

/-- What stops the words of the line before stops those of its first line. -/
theorem stops_splitOn {line : List (Char × Option Range)}
    {lines : List (List (Char × Option Range))}
    (htags : Text.splitOn ('\n', none) tags = line :: lines) (h : Stops (outside tags)) :
    Stops (outside line) := by
  intro c hc
  cases line with
  | nil => cases hc
  | cons tag line =>
      refine h c ?_
      rw [Text.splitOn_flatten htags, List.cons_append]
      exact hc

theorem itemsFrom_of_stops (h : Stops (outside tags)) (previous : Option Char) :
    itemsFrom previous tags = itemsFrom none tags := by
  obtain ⟨line, lines, hsplit⟩ := Text.exists_splitOn ('\n', none) tags
  rw [itemsFrom_eq hsplit, itemsFrom_eq hsplit, (stops_splitOn hsplit h).spelled]

theorem itemsFrom_congr {other : Option Char}
    (hword : previous.any isWordChar = other.any isWordChar)
    (hpoint : previous = some '.' ↔ other = some '.') (tags : List (Char × Option Range)) :
    itemsFrom previous tags = itemsFrom other tags := by
  obtain ⟨line, lines, hsplit⟩ := Text.exists_splitOn ('\n', none) tags
  rw [itemsFrom_eq hsplit, itemsFrom_eq hsplit, spelled_congr hword hpoint]

theorem taggedParts_items_ranged (s : BlockState) (previous : Option Char) (r : Range)
    (hcs : cs ≠ []) (more : List (Char × Option Range)) :
    taggedParts (itemEvents s (itemsFrom previous (cs.map (·, some r) ++ more))) =
      taggedParts (.text cs (some r) :: itemEvents s (itemsFrom none more)) := by
  obtain ⟨line, lines, hsplit⟩ := Text.exists_splitOn ('\n', none) more
  rw [itemsFrom_append (by simp) hsplit, itemsFrom_eq hsplit, taggedParts_ranged _ _ _ hcs]

theorem taggedParts_items_plain (s : BlockState) (previous : Option Char) (hline : '\n' ∉ cs)
    (hmore : Stops (outside more)) :
    taggedParts (itemEvents s (itemsFrom previous (cs.map (·, none) ++ more))) =
      match followWords s previous cs with
      | (s', none) => taggedParts (.text cs none :: itemEvents s' (itemsFrom none more))
      | (s', some n) => taggedParts (endOf s' (cs.take n) ++
          itemEvents {} (itemsFrom (some ';') ((cs.drop (n + 1)).map (·, none) ++ more))) := by
  obtain ⟨line, lines, hsplit⟩ := Text.exists_splitOn ('\n', none) more
  have hbehind : ∀ n, ('\n', (none : Option Range)) ∉ (cs.drop n).map (·, none) := by
    intro n hmem
    obtain ⟨c, hc, he⟩ := List.mem_map.1 hmem
    cases he
    exact hline (List.mem_of_mem_drop hc)
  rw [itemsFrom_append (by simpa using hbehind 0) hsplit,
    taggedParts_plain s previous hline (stops_splitOn hsplit hmore)]
  cases followWords s previous cs with
  | mk s' found =>
      cases found with
      | none => rw [itemsFrom_eq hsplit]
      | some n => simp only [itemsFrom_append (hbehind _) hsplit]

end Items

/-- The line is no lone slash that the search for a separator could find from here. -/
def Splitter.Unslashed (sp : Splitter) (c : Cursor) : Prop :=
  c.passed = [] → c.rest.drop (plainLength sp c) = [] → Text.trimmed c.rest ≠ ['/']

theorem Splitter.Unslashed.advance {sp : Splitter} {c : Cursor} (h : sp.Unslashed c) (n : Nat) :
    sp.Unslashed (c.advance n) := by
  intro hpassed
  obtain ⟨htaken, hbefore⟩ := List.append_eq_nil_iff.1 hpassed
  have hrest : c.rest.drop n = c.rest := by
    have happend := take_append_advance c n
    rwa [List.reverse_eq_nil_iff.1 htaken] at happend
  have hsame : c.advance n = c := by
    cases c with
    | mk passed rest => simp_all [Cursor.advance]
  rw [hsame] at hpassed ⊢
  exact h hpassed

section Line

variable {sp : Splitter}

section Token

variable {blocks blocks' : BlockState} {c : Cursor} {tail : List Char}

theorem taggedParts_of_none (hsp : sp.KeepsBlocks) (ht : Text.EndsLine tail)
    (hline : '\n' ∉ c.rest) (hfind : findToken sp blocks c = (blocks', none)) :
    taggedParts (itemEvents blocks
        (itemsFrom c.passed.head? (tagged sp.ranges [] (c.rest ++ tail)))) =
      taggedParts (.text (c.rest.take (plainLength sp c)) none :: itemEvents blocks'
        (itemsFrom none (tagged sp.ranges [] ((c.advance (plainLength sp c)).rest ++ tail)))) := by
  rw [tagged_plain hsp.ranges ht (Nat.le_refl _) (plainLength_le_length sp _),
    taggedParts_items_plain blocks _ (fun h => hline (List.mem_of_mem_take h))
      (stops_plain hsp.ranges ht),
    followWords_of_none hsp.separator hfind]

/-- A mark ends the statement where the items have a semicolon that does. -/
theorem taggedParts_of_mark (hsp : sp.KeepsBlocks) (ht : Text.EndsLine tail)
    (hline : '\n' ∉ c.rest) {n : Nat} {kept : Bool}
    (hfind : findToken sp blocks c = (blocks', some (.mark n kept))) :
    blocks' = {} ∧ ∃ s, kept = s.containsBlock ∧
      taggedParts (itemEvents blocks
          (itemsFrom c.passed.head? (tagged sp.ranges [] (c.rest ++ tail)))) =
        taggedParts (endOf s (c.rest.take n) ++ itemEvents {}
          (itemsFrom (c.advance (n + 1)).passed.head?
            (tagged sp.ranges [] ((c.advance (n + 1)).rest ++ tail)))) := by
  obtain ⟨s, hfollow, hblocks, hkept⟩ := followWords_of_mark hsp.separator hfind
  refine ⟨hblocks, s, hkept, ?_⟩
  obtain ⟨hlt, hsemi⟩ := findToken_mark hfind
  have hlength : plainLength sp c ≤ c.rest.length := plainLength_le_length sp _
  have hplain := tagged_plain hsp.ranges ht (Nat.le_refl _) hlength
  -- the text behind the mark is read as the rest of the plain text
  have hbehind : ((c.rest.take (plainLength sp c)).drop (n + 1)).map (·, none) ++
      tagged sp.ranges [] ((c.advance (plainLength sp c)).rest ++ tail) =
        tagged sp.ranges [] ((c.advance (n + 1)).rest ++ tail) := by
    have hmark := tagged_plain hsp.ranges ht hlt (Nat.le_trans hlt hlength)
    rw [hplain, ← List.take_append_drop (n + 1) (c.rest.take (plainLength sp c)), List.map_append,
      List.append_assoc, List.take_take, Nat.min_eq_left hlt] at hmark
    exact List.append_cancel_left hmark
  have hpassed : (c.advance (n + 1)).passed.head? = some ';' := by
    rw [Cursor.advance, (take_mark hfind).2]
    simp
  rw [hplain, taggedParts_items_plain blocks _ (fun h => hline (List.mem_of_mem_take h))
    (stops_plain hsp.ranges ht), hfollow]
  simp only [hbehind, hpassed, List.take_take, Nat.min_eq_left (Nat.le_of_lt hlt)]

end Token

theorem LineScan.taggedParts_items (hsp : sp.KeepsBlocks) {st st' : ScanState} {c : Cursor}
    {es : List Event} (h : LineScan sp st c es st') (hopen : ∀ r ∈ st.ranges, r ∈ sp.ranges)
    (hslash : st.ranges = [] → sp.Unslashed c) (hline : '\n' ∉ c.rest) {tail : List Char}
    (ht : Text.EndsLine tail) {previous : Option Char}
    (hprevious : st.ranges = [] → c.rest ≠ [] →
      ∀ tags, itemsFrom previous tags = itemsFrom c.passed.head? tags) :
    taggedParts (itemEvents st.blocks
        (itemsFrom previous (Script.tagged sp.ranges st.ranges (c.rest ++ tail)))) =
      taggedParts (es ++
        itemEvents st'.blocks (itemsFrom none (Script.tagged sp.ranges st'.ranges tail))) := by
  have unread : ∀ {c : Cursor} (n : Nat), '\n' ∉ c.rest → '\n' ∉ (c.advance n).rest :=
    fun n h hmem => h (List.mem_of_mem_drop hmem)
  induction h generalizing previous with
  | @closes r outer blocks c n es st hfind next ih =>
      obtain ⟨hr, houter⟩ := List.forall_mem_cons.1 hopen
      have hapart := closes_apart (hsp.apart r hr) hfind
      have hnext : outer = [] → (c.advance (n + r.closing.length)).rest ≠ [] → ∀ tags,
          itemsFrom none tags =
            itemsFrom (c.advance (n + r.closing.length)).passed.head? tags := by
        intro _ hne tags
        obtain ⟨-, e, he, hword, hpoint⟩ := hapart.resolve_left hne
        rw [he]
        exact itemsFrom_congr (by simp [hword]) (by simp [hpoint]) tags
      rw [tagged_closes (hsp.ranges r hr) hline ht hfind]
      by_cases htaken : c.rest.take (n + r.closing.length) = []
      · have hrest := hapart.resolve_right fun h => h.1 htaken
        rw [htaken]
        exact ih houter (fun _ _ _ => by rw [hrest]; decide) (unread _ hline)
          fun _ hne => absurd hrest hne
      · rw [taggedParts_items_ranged _ _ _ htaken]
        refine taggedParts_cons _ (ih houter (fun _ hpassed => ?_) (unread _ hline) hnext)
        exact absurd (List.reverse_eq_nil_iff.1 (List.append_eq_nil_iff.1 hpassed).1) htaken
  | @nests r outer blocks c n es st hfind next ih =>
      have hr := hopen r (List.mem_cons_self ..)
      have htaken : c.rest.take (n + r.opening.length) ≠ [] := by
        have := r.opening.length_pos
        simp [List.take_eq_nil_iff, Range.ne_nil_of_nests hfind]
        omega
      rw [tagged_nests (hsp.ranges r hr) ht hfind, taggedParts_items_ranged _ _ _ htaken]
      exact taggedParts_cons _ (ih (List.forall_mem_cons.2 ⟨hr, hopen⟩)
        (fun hnil => absurd hnil (List.cons_ne_nil _ _)) (unread _ hline)
        fun hnil => absurd hnil (List.cons_ne_nil _ _))
  | @stays r outer blocks c hfind =>
      have hr := hopen r (List.mem_cons_self ..)
      rw [tagged_stays (hsp.ranges r hr) ht hfind]
      by_cases hrest : c.rest = []
      · rw [hrest, List.map_nil, List.nil_append, itemsFrom_of_stops (stops_outside _ _ ht)]
        rfl
      · exact taggedParts_items_ranged _ _ _ hrest _
  | ends hrest =>
      rw [hrest, List.nil_append, itemsFrom_of_stops (stops_outside _ _ ht)]
      rfl
  | @keeps blocks blocks' c n es st hrest hfind next ih =>
      obtain ⟨rfl, s, hkept, hmark⟩ := taggedParts_of_mark hsp ht hline hfind
      rw [hprevious rfl hrest, hmark, endOf, if_pos hkept.symm, (take_mark hfind).2]
      exact taggedParts_append [_, _] (ih hopen (fun _ => (hslash rfl).advance _) (unread _ hline)
        fun _ _ _ => rfl)
  | @drops blocks blocks' c n es st hrest hfind next ih =>
      obtain ⟨rfl, s, hkept, hmark⟩ := taggedParts_of_mark hsp ht hline hfind
      rw [hprevious rfl hrest, hmark, endOf, if_neg (by simp [← hkept])]
      exact taggedParts_append [_, _] (ih hopen (fun _ => (hslash rfl).advance _) (unread _ hline)
        fun _ _ _ => rfl)
  | @wholeLine blocks blocks' c kind hrest hfind =>
      obtain ⟨hpassed, ⟨hgo, -⟩ | ⟨-, -, -, hafter, hlone⟩⟩ := find_wholeLine hfind
      · rw [hsp.separator] at hgo
        cases hgo
      · have hall : (plainAt c (plainLength sp c)).text = c.rest :=
          List.take_of_length_le (List.drop_eq_nil_iff.1 hafter)
        rw [hall] at hlone
        exact absurd hlone (hslash rfl hpassed hafter)
  | @plain blocks blocks' c hrest hrange hfind =>
      have hall : plainLength sp c = c.rest.length := plainLength_of_none hrange
      rw [hprevious rfl hrest, taggedParts_of_none hsp ht hline hfind, hall,
        List.take_length, Cursor.advance_rest, List.drop_length, List.nil_append]
      rfl
  | @opens blocks blocks' c n r es st hrest hrange hfind next ih =>
      have hplain : plainLength sp c = n := plainLength_of_some hrange
      have hmem := (opening_le hrange).1
      rw [hprevious rfl hrest, taggedParts_of_none hsp ht hline hfind, hplain,
        tagged_opens hsp.ranges ht hrange]
      refine taggedParts_cons _ ?_
      rw [taggedParts_items_ranged _ _ _ (opening_ne_nil hrange)]
      exact taggedParts_cons _ (ih (by simpa using hmem)
        (fun hnil => absurd hnil (List.cons_ne_nil _ _)) (unread _ hline)
        fun hnil => absurd hnil (List.cons_ne_nil _ _))

/-- The items from the beginning of a line on, given the ranges that are open there. -/
def itemsAt (stack : List Range) (tags : List (Char × Option Range)) : List Item :=
  if stack = [] then scriptItems tags else itemsFrom none tags

/-- A line break stands between the items of two lines, or belongs to a range. -/
theorem taggedParts_items_newline (hsp : sp.KeepsBlocks) {stack : List Range}
    (hopen : LeftOpen sp stack) (s : BlockState) (cs : List Char) :
    taggedParts (itemEvents s (itemsFrom none (tagged sp.ranges stack ('\n' :: cs)))) =
      taggedParts (.text ['\n'] stack.head? ::
        itemEvents s (itemsAt stack (tagged sp.ranges stack cs))) := by
  rw [tagged_newline hsp.ranges hopen]
  cases stack with
  | nil =>
      obtain ⟨line, lines, hsplit⟩ := Text.exists_splitOn ('\n', none) (tagged sp.ranges [] cs)
      have hbreak := Text.splitOn_cons hsplit ('\n', none)
      rw [if_pos rfl] at hbreak
      rw [List.head?_nil, itemsFrom_eq hbreak, itemsAt, if_pos rfl, scriptItems_eq hsplit,
        spelled_nil]
      rfl
  | cons r outer => exact taggedParts_items_ranged s none r (List.cons_ne_nil '\n' []) _

section Slash

variable {line tail : List Char} {first : List (Char × Option Range)}
  {others : List (List (Char × Option Range))}

/-- Behind a line outside every range begins another line, or the script ends. -/
theorem exists_splitOn_tail (hsp : sp.KeepsBlocks) (ht : Text.EndsLine tail) :
    ∃ lines, Text.splitOn ('\n', none) (tagged sp.ranges [] tail) = [] :: lines := by
  cases tail with
  | nil => exact ⟨[], by rw [tagged_nil]; rfl⟩
  | cons c tail =>
      obtain rfl : c = '\n' := ht c rfl
      obtain ⟨line, lines, hsplit⟩ := Text.exists_splitOn ('\n', none) (tagged sp.ranges [] tail)
      have hbreak := Text.splitOn_cons hsplit ('\n', none)
      rw [if_pos rfl] at hbreak
      exact ⟨line :: lines, by rw [tagged_newline hsp.ranges (leftOpen_nil sp)]; exact hbreak⟩

/-- Beside a lone slash stand only blanks. -/
theorem isBlank_of_slash {cs : List Char} (h : Text.trimmed cs = ['/']) {c : Char} (hc : c ∈ cs) :
    Text.isBlank c ∨ c = '/' := by
  obtain ⟨lead, trail, hchars, hlead, htrail⟩ := Text.exists_trimmed cs
  rw [hchars, h] at hc
  simp only [List.mem_append, List.mem_singleton] at hc
  rcases hc with (hmem | hmem) | hmem
  · exact .inl (hlead c hmem)
  · exact .inr hmem
  · exact .inl (htrail c hmem)

theorem not_quote_mem_of_slash {cs : List Char} (h : Text.trimmed cs = ['/']) : '"' ∉ cs :=
  fun hquote => absurd (isBlank_of_slash h hquote) (by decide)

/-- The items of a plain line are its own. -/
theorem splitOn_plain_line (hsp : sp.KeepsBlocks) (hline : '\n' ∉ line)
    (ht : Text.EndsLine tail) (hall : line.length ≤ plainLength sp (.ofLine line)) :
    ∃ lines, Text.splitOn ('\n', none) (tagged sp.ranges [] tail) = [] :: lines ∧
      Text.splitOn ('\n', none) (tagged sp.ranges [] (line ++ tail)) =
        line.map (·, none) :: lines := by
  obtain ⟨lines, htail⟩ := exists_splitOn_tail hsp ht
  have hplain : tagged sp.ranges [] (line ++ tail) =
      line.map (·, none) ++ tagged sp.ranges [] tail := by
    have h := tagged_plain hsp.ranges ht hall (Nat.le_refl _)
    simpa [Cursor.ofLine] using h
  have hbreak : ('\n', (none : Option Range)) ∉ line.map (·, none) := by simpa using hline
  exact ⟨lines, htail, by rw [hplain, Text.splitOn_append hbreak htail, List.append_nil]⟩

/-- A line that the items take for a lone slash is one. -/
theorem slash_of_items (hsp : sp.KeepsBlocks) (hline : '\n' ∉ line) (ht : Text.EndsLine tail)
    (hsplit : Text.splitOn ('\n', none) (tagged sp.ranges [] (line ++ tail)) = first :: others)
    (hslash : Text.trimmed (outside first) = ['/']) :
    line.length ≤ plainLength sp (.ofLine line) ∧ Text.trimmed line = ['/'] := by
  cases hrange : firstRange? (.ofLine line) sp.ranges with
  | none =>
      have hall : line.length ≤ plainLength sp (.ofLine line) := by
        rw [plainLength, hrange]
        exact Nat.le_refl _
      obtain ⟨lines, -, hplain⟩ := splitOn_plain_line hsp hline ht hall
      rw [hsplit] at hplain
      obtain ⟨rfl, -⟩ := List.cons.inj hplain
      rw [outside_plain] at hslash
      exact ⟨hall, hslash⟩
  | some found =>
      exfalso
      obtain ⟨n, r⟩ := found
      have hplain : plainLength sp (.ofLine line) = n := plainLength_of_some hrange
      have hle := (opening_le hrange).2
      have hopens := tagged_opens hsp.ranges ht hrange
      have htags := tagged_plain hsp.ranges ht (Nat.le_of_eq hplain.symm)
        (show n ≤ (Cursor.ofLine line).rest.length by omega)
      -- the code that opens the range would belong to the line
      have hquote : '"' ∈ outside first := by
        obtain ⟨code, more, hcode⟩ := List.exists_cons_of_ne_nil (opening_ne_nil hrange)
        obtain ⟨part, parts, hparts⟩ := Text.exists_splitOn ('\n', none) (tagged sp.ranges [r]
          (((Cursor.ofLine line).advance (n + r.opening.length)).rest ++ tail))
        have hbreak : ('\n', none) ∉ ((Cursor.ofLine line).rest.take n).map (·, none) ++
            (code :: more).map (·, some r) := by
          simp only [List.mem_append, List.mem_map, Prod.mk.injEq, not_or, not_exists, not_and]
          exact ⟨fun c hc he _ => hline (List.mem_of_mem_take (he ▸ hc)),
            fun c _ _ => Option.some_ne_none r⟩
        have hfirst := Text.splitOn_append hbreak hparts
        rw [List.append_assoc, ← hcode, ← hopens, ← htags] at hfirst
        obtain ⟨rfl, -⟩ := List.cons.inj (hsplit.symm.trans hfirst)
        rw [hcode, outside_append, outside_append]
        exact List.mem_append_left _ (List.mem_append_right _ (List.mem_cons_self ..))
      exact not_quote_mem_of_slash hslash hquote

theorem findToken_slash (hsp : sp.KeepsBlocks) (blocks : BlockState)
    (hall : line.length ≤ plainLength sp (.ofLine line)) (hslash : Text.trimmed line = ['/']) :
    findToken sp blocks (.ofLine line) = ({}, some (.wholeLine .statement)) := by
  have htake : line.take (plainLength sp (.ofLine line)) = line := List.take_of_length_le hall
  have hdrop : line.drop (plainLength sp (.ofLine line)) = [] := List.drop_eq_nil_iff.2 hall
  rw [findToken, hsp.separator, Separator.find, findOutsideBlocks, if_pos]
  simp only [Cursor.ofLine] at htake hdrop
  simp [plainAt, Cursor.ofLine, hdrop, htake, hslash]

end Slash

theorem taggedParts_items_line (hsp : sp.KeepsBlocks) {st : ScanState}
    (hopen : LeftOpen sp st.ranges) {line tail : List Char} (hline : '\n' ∉ line)
    (ht : Text.EndsLine tail) :
    taggedParts (itemEvents st.blocks (itemsAt st.ranges
        (tagged sp.ranges st.ranges (line ++ tail)))) =
      taggedParts ((scanLine sp st (.ofLine line)).1 ++
        itemEvents (scanLine sp st (.ofLine line)).2.blocks
          (itemsFrom none (tagged sp.ranges (scanLine sp st (.ofLine line)).2.ranges tail))) := by
  have hscan := lineScan_scanLine sp st (.ofLine line)
  by_cases hlone : st.ranges = [] ∧ line.length ≤ plainLength sp (.ofLine line) ∧
      Text.trimmed line = ['/']
  · obtain ⟨hranges, hall, hslash⟩ := hlone
    obtain ⟨ranges, blocks⟩ := st
    subst hranges
    have hne : (Cursor.ofLine line).rest ≠ [] := by
      rintro hnil
      rw [show line = [] from hnil] at hslash
      cases hslash
    obtain ⟨hes, hst⟩ := hscan.unique (.wholeLine hne (findToken_slash hsp blocks hall hslash))
    obtain ⟨lines, htail, hsplit⟩ := splitOn_plain_line hsp hline ht hall
    rw [hes, hst, itemsAt, if_pos rfl, scriptItems_eq hsplit, lineItems, outside_plain,
      if_pos hslash, itemsFrom_eq htail, spelled_nil, List.map_map]
    simp [itemEvents, Cursor.ofLine, Function.comp_def]
  · have hunslashed : st.ranges = [] → sp.Unslashed (.ofLine line) := fun hranges _ hdrop hslash =>
      hlone ⟨hranges, List.drop_eq_nil_iff.1 hdrop, hslash⟩
    have hitems : itemsAt st.ranges (tagged sp.ranges st.ranges (line ++ tail)) =
        itemsFrom none (tagged sp.ranges st.ranges (line ++ tail)) := by
      rw [itemsAt]
      split
      · rename_i hranges
        obtain ⟨first, others, hsplit⟩ :=
          Text.exists_splitOn ('\n', none) (tagged sp.ranges st.ranges (line ++ tail))
        rw [scriptItems_eq hsplit, itemsFrom_eq hsplit, lineItems, if_neg]
        rw [hranges] at hsplit
        exact fun hslash => hlone ⟨hranges, slash_of_items hsp hline ht hsplit hslash⟩
      · rfl
    rw [hitems]
    exact hscan.taggedParts_items hsp hopen.known hunslashed hline ht fun _ _ _ => rfl

theorem taggedParts_scanLines (hsp : sp.KeepsBlocks) {st : ScanState}
    (hopen : LeftOpen sp st.ranges) {lines : List (List Char)}
    (hlines : ∀ line ∈ lines, '\n' ∉ line) :
    taggedParts (scanLines sp st lines) =
      taggedParts (itemEvents st.blocks
        (itemsFrom none (tagged sp.ranges st.ranges (lines.flatMap ('\n' :: ·))))) := by
  induction lines generalizing st with
  | nil =>
      rw [List.flatMap_nil, tagged_nil]
      simp [scanLines, itemsFrom, Text.splitOn, laterItems, itemEvents]
  | cons line lines ih =>
      have hscan := lineScan_scanLine sp st (.ofLine line)
      rw [List.flatMap_cons, List.cons_append, taggedParts_items_newline hsp hopen]
      refine taggedParts_cons _ ?_
      rw [taggedParts_items_line hsp hopen (hlines line (List.mem_cons_self ..))
        (Text.endsLine_lines lines)]
      exact taggedParts_append _ (ih (hscan.leftOpen hopen.known)
        fun l hl => hlines l (List.mem_cons_of_mem _ hl))

/-- The scan gives the batches what the items of the script give. -/
theorem taggedParts_scan (hsp : sp.KeepsBlocks) (script : List Char) :
    taggedParts (scan sp script) =
      taggedParts (itemEvents {} (scriptItems (tagged sp.ranges [] script))) := by
  obtain ⟨line, lines, hsplit⟩ := Text.exists_splitOn '\n' script
  have hlines : ∀ l ∈ line :: lines, '\n' ∉ l := fun l hl =>
    Text.not_mem_of_mem_splitOn (hsplit ▸ hl)
  have hscan := lineScan_scanLine sp {} (.ofLine line)
  have hopen : LeftOpen sp ({} : ScanState).ranges := leftOpen_nil sp
  have hfirst := taggedParts_items_line hsp hopen (hlines line (List.mem_cons_self ..))
    (Text.endsLine_lines lines)
  rw [itemsAt, if_pos rfl, ← Text.splitOn_flatten hsplit] at hfirst
  rw [hfirst, scan, hsplit]
  exact taggedParts_append _ (taggedParts_scanLines hsp (hscan.leftOpen (by simp))
    fun l hl => hlines l (List.mem_cons_of_mem _ hl))

end Line

end SchemaChange.Script
