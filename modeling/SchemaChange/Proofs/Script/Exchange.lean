import SchemaChange.Proofs.Script.ItemScan

/-!
# Exchanging items of a script

Items that end no statement can be exchanged for others that do neither and leave the same state
behind: the same batches come out, and only the one that holds the items has other characters
in their place.
-/
namespace SchemaChange.Script

/-- All parts that some events give. -/
def partList (es : List Event) : List (List (Char × Option Range) × BatchKind) :=
  (taggedParts es).1 :: (taggedParts es).2

theorem withoutComments_texts (strip : Bool) (texts : List (List Char × Option Range)) :
    withoutComments strip (texts.flatMap fun text => text.1.map (·, text.2)) =
      texts.flatMap fun (chars, range) =>
        if strip && range.any Range.isComment then [] else chars := by
  induction texts with
  | nil => rfl
  | cons text texts ih =>
      rw [List.flatMap_cons, withoutComments_append, withoutComments_range, ih]
      rfl

/-- The batches of a script, told by its characters with their ranges. -/
theorem split_eq_partList (sp : Splitter) (script : String) : sp.split script =
    (partList (scan sp script.toList)).filterMap fun (tags, kind) =>
      batchOf? (withoutComments sp.stripComments tags) kind := by
  have hpart : ∀ part : Part, part.batch? sp.stripComments =
      batchOf? (withoutComments sp.stripComments part.tagged.1) part.tagged.2 := by
    intro part
    rw [Part.tagged, withoutComments_texts]
    rfl
  have hparts : partList (scan sp script.toList) =
      ((parts (scan sp script.toList)).1 :: (parts (scan sp script.toList)).2).map Part.tagged :=
    rfl
  rw [hparts, List.filterMap_map]
  exact congrArg (List.filterMap · _) (funext hpart)

/-- Some events give complete parts and the beginning of another one. -/
theorem exists_partList_append (es : List Event) :
    ∃ ps gathered, ∀ es', partList (es ++ es') =
      ps ++ (gathered ++ (taggedParts es').1.1, (taggedParts es').1.2) :: (taggedParts es').2 := by
  induction es with
  | nil => exact ⟨[], [], fun es' => rfl⟩
  | cons e es ih =>
      obtain ⟨ps, gathered, hes⟩ := ih
      cases e with
      | cut separator kind =>
          refine ⟨([], kind) :: ps, gathered, fun es' => ?_⟩
          rw [List.cons_append, partList, taggedParts_cut, ← partList, hes]
          rfl
      | text chars range =>
          cases ps with
          | nil =>
              refine ⟨[], chars.map (·, range) ++ gathered, fun es' => ?_⟩
              obtain ⟨hfirst, hothers⟩ := List.cons.inj (hes es')
              rw [List.cons_append, partList, taggedParts_text, hfirst, hothers,
                List.append_assoc]
              rfl
          | cons p ps =>
              refine ⟨(chars.map (·, range) ++ p.1, p.2) :: ps, gathered, fun es' => ?_⟩
              obtain ⟨hfirst, hothers⟩ := List.cons.inj (hes es')
              rw [List.cons_append, partList, taggedParts_text, hfirst, hothers]
              rfl

/-- The state behind some items. -/
def BlockState.after (s : BlockState) : List Item → BlockState
  | [] => s
  | .slashLine _ :: items => after {} items
  | .lexeme l _ _ :: items =>
      if l = .semicolon ∧ s.isClosed then after {} items else after (s.read l) items

theorem itemEvents_append (s : BlockState) (items more : List Item) :
    itemEvents s (items ++ more) = itemEvents s items ++ itemEvents (s.after items) more := by
  induction items generalizing s with
  | nil => rfl
  | cons item items ih =>
      cases item with
      | slashLine chars => rw [List.cons_append, itemEvents, ih, itemEvents]; rfl
      | lexeme l chars range =>
          rw [List.cons_append, itemEvents, itemEvents, BlockState.after]
          split
          · rw [ih, List.append_assoc]
          · rw [ih, List.cons_append]

/-- The item lies outside every range and ends no statement. -/
def Item.isQuiet : Item → Prop
  | .lexeme l _ range => l ≠ .semicolon ∧ range = none
  | .slashLine _ => False

theorem taggedParts_quiet {items : List Item} (h : ∀ item ∈ items, item.isQuiet) (s : BlockState)
    (more : List Item) : taggedParts (itemEvents s (items ++ more)) =
      taggedParts (.text (items.flatMap Item.chars) none :: itemEvents (s.after items) more) := by
  induction items generalizing s with
  | nil => rfl
  | cons item items ih =>
      obtain ⟨hitem, hothers⟩ := List.forall_mem_cons.1 h
      cases item with
      | slashLine chars => cases hitem
      | lexeme l chars range =>
          obtain ⟨hsemi, rfl⟩ := hitem
          rw [List.cons_append, itemEvents, if_neg fun he => hsemi he.1,
            taggedParts_cons _ (ih hothers _), ← taggedParts_join, BlockState.after,
            if_neg fun he => hsemi he.1]
          rfl

/-- Whatever quiet items stand at a place, if they leave the same state, the script has the same
batches but for the one that holds their characters. -/
theorem exists_split_of_items {sp : Splitter} (hsp : sp.KeepsBlocks) (front back : List Item)
    (s : BlockState) : ∃ bs before after kind ds, ∀ (script : String) (middle : List Item),
      (∀ item ∈ middle, item.isQuiet) → (BlockState.after {} front).after middle = s →
      scriptItems (tagged sp.ranges [] script.toList) = front ++ (middle ++ back) →
      sp.split script = bs ++
        ((batchOf? (before ++ middle.flatMap Item.chars ++ after) kind).toList ++ ds) := by
  obtain ⟨ps, gathered, hparts⟩ := exists_partList_append (itemEvents {} front)
  let batch := fun (p : List (Char × Option Range) × BatchKind) =>
    batchOf? (withoutComments sp.stripComments p.1) p.2
  refine ⟨ps.filterMap batch, withoutComments sp.stripComments gathered,
    withoutComments sp.stripComments (taggedParts (itemEvents s back)).1.1,
    (taggedParts (itemEvents s back)).1.2, (taggedParts (itemEvents s back)).2.filterMap batch,
    fun script middle hquiet hstate hitems => ?_⟩
  have hscan : partList (scan sp script.toList) = partList (itemEvents {} front ++
      itemEvents (BlockState.after {} front) (middle ++ back)) := by
    rw [partList, taggedParts_scan hsp, hitems, itemEvents_append, ← partList]
  have hwithout : ∀ cs tags, withoutComments sp.stripComments
      (gathered ++ (cs.map (·, none) ++ tags)) =
        withoutComments sp.stripComments gathered ++ cs ++
          withoutComments sp.stripComments tags := by
    intro cs tags
    rw [withoutComments_append, withoutComments_append, withoutComments_range,
      if_neg (by simp), List.append_assoc]
  rw [split_eq_partList, hscan, hparts, taggedParts_quiet hquiet, taggedParts_text, hstate,
    List.filterMap_append, List.filterMap_cons]
  simp only [hwithout]
  split
  · rename_i hnone
    rw [hnone]
    rfl
  · rename_i b hsome
    rw [hsome]
    rfl

/-- The batches differ in one place of one text only. -/
def Exchanged (old new : String) (bs bs' : List Batch) : Prop :=
  ∃ front before after kind back,
    bs = front ++ ⟨before ++ old ++ after, kind⟩ :: back ∧
      bs' = front ++ ⟨before ++ new ++ after, kind⟩ :: back

theorem Splitter.KeepsBlocks.withStripComments {sp : Splitter} (h : sp.KeepsBlocks)
    (strip : Bool) : (sp.withStripComments strip).KeepsBlocks :=
  ⟨h.separator, h.ranges, h.apart⟩

section Place

variable {tags more : List (Char × Option Range)}

theorem eq_of_shown_eq_newline {tag : Char × Option Range} (h : shown tag = '\n') :
    tag = ('\n', none) := by
  obtain ⟨c, range⟩ := tag
  cases range with
  | none => exact congrArg (·, none) h
  | some r => cases h

/-- A line of a script shows no line break. -/
theorem newline_not_mem_line {lines : List (List (Char × Option Range))}
    {line : List (Char × Option Range)} (hlines : Text.splitOn ('\n', none) tags = lines)
    (h : line ∈ lines) : '\n' ∉ outside line := by
  intro hmem
  obtain ⟨tag, htag, hshown⟩ := List.mem_map.1 hmem
  exact Text.not_mem_of_mem_splitOn (hlines ▸ h) (eq_of_shown_eq_newline hshown ▸ htag)

/-- The items of the lines before the last one. -/
def frontItems : List (List (Char × Option Range)) → List Item
  | [] => []
  | line :: lines => lineItems line ++ laterItems lines ++ [.lexeme .other ['\n'] none]

/-- What stands behind a text goes on with its last line. -/
theorem scriptItems_append {init others : List (List (Char × Option Range))}
    {last first : List (Char × Option Range)}
    (htags : Text.splitOn ('\n', none) tags = init ++ [last])
    (hmore : Text.splitOn ('\n', none) more = first :: others) :
    scriptItems (tags ++ more) =
      frontItems init ++ (lineItems (last ++ first) ++ laterItems others) := by
  have hall := Text.splitOn_append_parts htags hmore
  cases init with
  | nil => exact scriptItems_eq hall
  | cons line init =>
      rw [List.cons_append] at hall
      rw [scriptItems_eq hall]
      simp [frontItems, laterItems]

end Place

end SchemaChange.Script
