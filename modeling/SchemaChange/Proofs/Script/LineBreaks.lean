import SchemaChange.Proofs.Script.Boundary
import SchemaChange.Proofs.Script.Exchange

/-!
# Line breaks in place of spaces

Where blocks stay whole, a line break outside every range is a blank like any other: put in place
of a space, it changes no batch but for that character. There are two exceptions. It can leave
a slash alone on its line, and it can part an END from the word that belongs to it, which is
looked for on the same line only.
-/
namespace SchemaChange.Script

/-- The line in which a text ends. -/
def lastLine (cs : List Char) : List Char := (cs.reverse.takeWhile (· != '\n')).reverse

/-- The line with which a text begins. -/
def firstLine (cs : List Char) : List Char := cs.takeWhile (· != '\n')

section Lines

variable {tags : List (Char × Option Range)}

/-- What the items take for a lone slash lies outside every range. -/
theorem outside_of_slash (h : Text.trimmed (outside tags) = ['/']) :
    outside tags = tags.map Prod.fst := by
  refine List.map_congr_left fun tag htag => ?_
  obtain ⟨c, range⟩ := tag
  cases range with
  | none => rfl
  | some r =>
      exact absurd (List.mem_map.2 ⟨(c, some r), htag, rfl⟩) (not_quote_mem_of_slash h)

theorem lastLine_append {before line : List Char} (hline : '\n' ∉ line)
    (hbefore : before = [] ∨ before.getLast? = some '\n') : lastLine (before ++ line) = line := by
  have hstop : before.reverse.takeWhile (· != '\n') = [] := by
    rcases hbefore with rfl | hlast
    · rfl
    · rw [← List.head?_reverse] at hlast
      obtain ⟨more, hmore⟩ := List.head?_eq_some_iff.1 hlast
      rw [hmore]
      rfl
  rw [lastLine, List.reverse_append, Text.takeWhile_line (by simpa using hline), hstop,
    List.append_nil, List.reverse_reverse]

/-- A lone slash is a line of its own among the characters as well. -/
theorem lastLine_of_slash {init : List (List (Char × Option Range))}
    {last : List (Char × Option Range)} (hsplit : Text.splitOn ('\n', none) tags = init ++ [last])
    (h : Text.trimmed (outside last) = ['/']) :
    lastLine (tags.map Prod.fst) = outside last := by
  have hline : '\n' ∉ outside last := newline_not_mem_line hsplit (by simp)
  obtain ⟨before, rfl, hbefore⟩ := Text.exists_of_splitOn_last hsplit
  rw [List.map_append, ← outside_of_slash h]
  refine lastLine_append hline ?_
  rcases hbefore with rfl | hlast
  · exact .inl rfl
  · exact .inr (by rw [List.getLast?_map, hlast]; rfl)

theorem firstLine_of_slash {first : List (Char × Option Range)}
    {others : List (List (Char × Option Range))}
    (hsplit : Text.splitOn ('\n', none) tags = first :: others)
    (h : Text.trimmed (outside first) = ['/']) :
    firstLine (tags.map Prod.fst) = outside first := by
  have hline : '\n' ∉ outside first := newline_not_mem_line hsplit (by simp)
  rw [Text.splitOn_flatten hsplit, List.map_append, ← outside_of_slash h, firstLine,
    Text.takeWhile_line hline]
  cases others with
  | nil => exact List.append_nil _
  | cons next others => exact List.append_nil _

end Lines

/-- With a blank between them, two texts are a lone slash only if one of them is. -/
theorem slash_of_blank {before after : List Char} {c : Char} (hc : Text.isBlank c)
    (h : Text.trimmed (before ++ c :: after) = ['/']) :
    Text.trimmed before = ['/'] ∨ Text.trimmed after = ['/'] := by
  rcases Text.trimmed_blank before after with hafter | hbefore | ⟨cs, ds, hcs, hstays⟩
  · exact .inr (hafter c hc ▸ h)
  · exact .inl (hbefore c hc ▸ h)
  · rw [hstays c hc] at h
    obtain ⟨d, cs, rfl⟩ := List.exists_cons_of_ne_nil hcs
    simp at h

/-- Where a word is joined to an END is told by the rest of the line. -/
theorem joined?_outside {tags first : List (Char × Option Range)}
    {others : List (List (Char × Option Range))}
    (hsplit : Text.splitOn ('\n', none) tags = first :: others) :
    joined? (outside tags) = joined? (outside first) := by
  have hline := Text.takeWhile_line (newline_not_mem_line hsplit List.mem_cons_self)
  have hfirst := hline []
  rw [List.append_nil] at hfirst
  rw [joined?, joined?, Text.splitOn_flatten hsplit, outside_append, hline, hfirst]
  cases others with
  | nil => rfl
  | cons next others => rfl

section Break

variable {strip : Bool} {before after : String} {tags tags' : List (Char × Option Range)}

/-- A text that ends in END ends so behind other lines as well. -/
theorem EndsInEnd.behind {before line : List Char}
    (hbefore : before = [] ∨ before.getLast? = some '\n') (h : EndsInEnd none line) :
    EndsInEnd none (before ++ line) := by
  obtain ⟨lead, word, gap, rfl, hupper, hgap, hstart, hplain⟩ := h
  refine ⟨before ++ lead, word, gap, by simp, hupper, hgap, ?_⟩
  rw [List.getLast?_append]
  rcases hbefore with rfl | hlast
  · rw [List.getLast?_nil, Option.or_none]
    exact ⟨hstart, hplain⟩
  · rw [hlast]
    cases hlead : lead.getLast? with
    | none => exact ⟨by decide, by decide⟩
    | some d =>
        rw [hlead] at hstart hplain
        exact ⟨hstart, hplain⟩

/-- A line in which a space stands at some place has the items of the two parts around it. -/
theorem spelled_space {left right : List (Char × Option Range)} (hline : '\n' ∉ outside left)
    (hend : EndsInEnd none (outside left) → joined? (outside right) = none) :
    spelled none (left ++ (' ', none) :: right) =
      spelled none left ++ .lexeme .other [' '] none :: spelled none right := by
  have hblank : joined? (outside right) = none → joined? (' ' :: outside right) = none := by
    intro hnone
    rw [joined?] at hnone
    rw [joined?, List.takeWhile_cons, if_pos (by decide), nextWord?_blank (by decide)]
    cases hfound : nextWord? ((outside right).takeWhile (· != '\n')) with
    | none => rfl
    | some found =>
        rw [hfound] at hnone
        simpa [Option.filter] using hnone
  have hright : outside ((' ', none) :: right) = ' ' :: outside right := rfl
  have hbehind : spelled (some ' ') right = spelled none right :=
    spelled_congr (by decide) (by decide) right
  rw [spelled_append hline (.inr rfl) fun h => hright ▸ hblank (hend h),
    spelled_other (by decide) (by decide), ← hbehind]
  rfl

/-- The characters of the two parts around the space are those of the script. -/
theorem chars_of_tagged
    (hspace : tagged Dialect.oracle.splitter.ranges [] (before.toList ++ ' ' :: after.toList) =
      tags ++ (' ', none) :: tags')
    (hlength : tags.length = before.toList.length) :
    tags.map Prod.fst = before.toList ∧ tags'.map Prod.fst = after.toList := by
  have hall := tagged_chars Dialect.oracle.splitter.ranges [] (before.toList ++ ' ' :: after.toList)
  rw [hspace, List.map_append, List.map_cons] at hall
  obtain ⟨hbefore, hrest⟩ := List.append_inj hall (by rw [List.length_map, hlength])
  exact ⟨hbefore, (List.cons.inj hrest).2⟩

/-- The line break leaves the ranges around it as they are. -/
theorem tagged_lineBreak
    (hspace : tagged Dialect.oracle.splitter.ranges [] (before.toList ++ ' ' :: after.toList) =
      tags ++ (' ', none) :: tags')
    (hlength : tags.length = before.toList.length) :
    tagged Dialect.oracle.splitter.ranges [] (before.toList ++ '\n' :: after.toList) =
      tags ++ ('\n', none) :: tags' := by
  have hforeign : ∀ c ∈ [' ', '\n'], Foreign Dialect.oracle.splitter.ranges c :=
    foreign_of_all (by decide)
  have hread : ∀ c ∈ [' ', '\n'], tagged Dialect.oracle.splitter.ranges []
      (before.toList ++ c :: after.toList) =
        tags ++ (c, none) :: tagged Dialect.oracle.splitter.ranges [] after.toList := by
    intro c hc
    rw [tagged_before (hforeign ' ' (by simp)) (by decide) hspace hlength
      ((hforeign c hc).confined _), tagged_foreign (hforeign c hc) (by simp) (by simp)]
    rfl
  have hspaced := hread ' ' (by simp)
  rw [hspace] at hspaced
  rw [hread '\n' (by simp), (List.cons.inj (List.append_cancel_left hspaced)).2]

/-- The items around the space are those around the line break. -/
theorem exists_items_lineBreak
    (hspace : tagged Dialect.oracle.splitter.ranges [] (before.toList ++ ' ' :: after.toList) =
      tags ++ (' ', none) :: tags')
    (hlength : tags.length = before.toList.length)
    (hbefore : Text.trimmed (lastLine before.toList) ≠ ['/'])
    (hafter : Text.trimmed (firstLine after.toList) ≠ ['/'])
    (hend : EndsInEnd none (outside tags) → joined? (outside tags') = none) :
    ∃ front back,
      scriptItems (tagged Dialect.oracle.splitter.ranges []
          (before.toList ++ ' ' :: after.toList)) =
        front ++ ([.lexeme .other [' '] none] ++ back) ∧
      scriptItems (tagged Dialect.oracle.splitter.ranges []
          (before.toList ++ '\n' :: after.toList)) =
        front ++ ([.lexeme .other ['\n'] none] ++ back) := by
  obtain ⟨hchars, hchars'⟩ := chars_of_tagged hspace hlength
  obtain ⟨init, last, hlines⟩ := Text.exists_splitOn_last ('\n', none) tags
  obtain ⟨first, others, hlines'⟩ := Text.exists_splitOn ('\n', none) tags'
  have hline : '\n' ∉ outside last := newline_not_mem_line hlines (by simp)
  -- neither line is a lone slash, and so the line of both is none
  have hlast : Text.trimmed (outside last) ≠ ['/'] := fun h =>
    hbefore (by rwa [← hchars, lastLine_of_slash hlines h])
  have hfirst : Text.trimmed (outside first) ≠ ['/'] := fun h =>
    hafter (by rwa [← hchars', firstLine_of_slash hlines' h])
  have hboth : Text.trimmed (outside (last ++ (' ', none) :: first)) ≠ ['/'] := by
    rw [outside_append]
    exact fun h => (slash_of_blank (by decide) h).elim hlast hfirst
  have hjoins : EndsInEnd none (outside last) → joined? (outside first) = none := by
    obtain ⟨lead, rfl, hlead⟩ := Text.exists_of_splitOn_last hlines
    rw [← joined?_outside hlines']
    rw [outside_append] at hend
    refine fun h => hend (h.behind ?_)
    rcases hlead with rfl | hlead
    · exact .inl rfl
    · exact .inr (by rw [outside, List.getLast?_map, hlead]; rfl)
  refine ⟨frontItems init ++ spelled none last, spelled none first ++ laterItems others, ?_, ?_⟩
  · have hspacedLines := Text.splitOn_cons hlines' (' ', none)
    rw [if_neg (by decide)] at hspacedLines
    rw [hspace, scriptItems_append hlines hspacedLines, lineItems, if_neg hboth,
      spelled_space hline hjoins]
    simp
  · have hbrokenLines := Text.splitOn_cons hlines' ('\n', none)
    rw [if_pos rfl] at hbrokenLines
    rw [tagged_lineBreak hspace hlength, scriptItems_append hlines hbrokenLines,
      List.append_nil, lineItems, if_neg hlast]
    simp [laterItems, lineItems, hfirst]

/-- A blank in place of another one changes its batch at most. -/
theorem exchanged_of_blank {bs ds : List Batch} {u v : List Char} {kind : BatchKind} {c d : Char}
    (hc : Text.isBlank c) (hd : Text.isBlank d) {old new : List Batch}
    (hold : old = bs ++ ((batchOf? (u ++ [c] ++ v) kind).toList ++ ds))
    (hnew : new = bs ++ ((batchOf? (u ++ [d] ++ v) kind).toList ++ ds)) :
    new = old ∨ Exchanged (String.ofList [c]) (String.ofList [d]) old new := by
  rw [List.append_assoc, List.singleton_append] at hold hnew
  have same : ∀ cs, (∀ e, Text.isBlank e → Text.trimmed (u ++ e :: v) = cs) → new = old := by
    intro cs hsame
    rw [hold, hnew, batchOf?, batchOf?, hsame c hc, hsame d hd]
  rcases Text.trimmed_blank u v with hafter | hbefore | ⟨cs, es, hcs, hstays⟩
  · exact .inl (same _ hafter)
  · exact .inl (same _ hbefore)
  · have hbatch : ∀ e, Text.isBlank e → batchOf? (u ++ e :: v) kind =
        some ⟨String.ofList cs ++ String.ofList [e] ++ String.ofList es, kind⟩ := by
      intro e he
      rw [batchOf?_of_trimmed (hstays e he) (by simp), ← String.ofList_append,
        ← String.ofList_append, List.append_assoc, List.singleton_append]
    refine .inr ⟨bs, String.ofList cs, String.ofList es, kind, ds, ?_, ?_⟩
    · rw [hold, hbatch c hc]
      rfl
    · rw [hnew, hbatch d hd]
      rfl

/-- A line break in place of a space changes no batch but for that character, if it leaves no
slash alone on its line and does not stand between END and the word that belongs to it. -/
theorem split_lineBreak
    (hspace : tagged Dialect.oracle.splitter.ranges [] (before.toList ++ ' ' :: after.toList) =
      tags ++ (' ', none) :: tags')
    (hlength : tags.length = before.toList.length)
    (hbefore : Text.trimmed (lastLine before.toList) ≠ ['/'])
    (hafter : Text.trimmed (firstLine after.toList) ≠ ['/'])
    (hend : EndsInEnd none (outside tags) → joined? (outside tags') = none) :
    (Dialect.oracle.splitter.withStripComments strip).split (before ++ "\n" ++ after) =
        (Dialect.oracle.splitter.withStripComments strip).split (before ++ " " ++ after) ∨
      Exchanged " " "\n"
        ((Dialect.oracle.splitter.withStripComments strip).split (before ++ " " ++ after))
        ((Dialect.oracle.splitter.withStripComments strip).split (before ++ "\n" ++ after)) := by
  obtain ⟨front, back, hspaced, hbroken⟩ :=
    exists_items_lineBreak hspace hlength hbefore hafter hend
  obtain ⟨bs, u, v, kind, ds, hsplit⟩ := exists_split_of_items
    (keepsBlocks_oracle.withStripComments strip) front back (BlockState.after {} front)
  have hquiet : ∀ c : Char, ∀ item ∈ [Item.lexeme .other [c] none], item.isQuiet := by
    intro c item h
    rw [List.mem_singleton.1 h]
    exact ⟨nofun, rfl⟩
  have htext : ∀ c : Char, (before ++ String.ofList [c] ++ after).toList =
      before.toList ++ c :: after.toList := fun c => by simp
  have hold := hsplit _ _ (hquiet ' ') rfl ((congrArg _ (congrArg _ (htext ' '))).trans hspaced)
  have hnew := hsplit _ _ (hquiet '\n') rfl ((congrArg _ (congrArg _ (htext '\n'))).trans hbroken)
  exact exchanged_of_blank (by decide) (by decide) hold hnew

end Break

theorem split_lineBreak_case :
    let before := "BEGIN x := 'a /'; CASE"
    let after := "y WHEN 1 THEN z; END CASE; /*;*/ END; COMMIT"
    ∃ tags tags', tagged Dialect.oracle.splitter.ranges [] (before.toList ++ ' ' :: after.toList) =
        tags ++ (' ', none) :: tags' ∧ tags.length = before.toList.length ∧
      Text.trimmed (lastLine before.toList) ≠ ['/'] ∧
      Text.trimmed (firstLine after.toList) ≠ ['/'] ∧
      (EndsInEnd none (outside tags) → joined? (outside tags') = none) ∧
      Exchanged " " "\n"
        ((Dialect.oracle.splitter.withStripComments true).split (before ++ " " ++ after))
        ((Dialect.oracle.splitter.withStripComments true).split (before ++ "\n" ++ after)) := by
  intro before after
  have hspace : tagged Dialect.oracle.splitter.ranges [] (before.toList ++ ' ' :: after.toList) =
      (tagged Dialect.oracle.splitter.ranges [] before.toList) ++ (' ', none) ::
        tagged Dialect.oracle.splitter.ranges [] after.toList := by decide +kernel
  have hlength : (tagged Dialect.oracle.splitter.ranges [] before.toList).length =
      before.toList.length := by decide +kernel
  have hbefore : Text.trimmed (lastLine before.toList) ≠ ['/'] := by decide +kernel
  have hafter : Text.trimmed (firstLine after.toList) ≠ ['/'] := by decide +kernel
  have hend : EndsInEnd none (outside (tagged Dialect.oracle.splitter.ranges [] before.toList)) →
      joined? (outside (tagged Dialect.oracle.splitter.ranges [] after.toList)) = none :=
    fun _ => by decide +kernel
  exact ⟨_, _, hspace, hlength, hbefore, hafter, hend,
    (split_lineBreak hspace hlength hbefore hafter hend).resolve_left (by decide +kernel)⟩

/-- A line break behind END parts it from the word that belongs to it. -/
theorem not_split_lineBreak :
    let before := "BEGIN IF a THEN b; END"
    let after := "IF; END; COMMIT"
    tagged Dialect.oracle.splitter.ranges [] (before.toList ++ ' ' :: after.toList) =
        before.toList.map (·, none) ++ (' ', none) :: after.toList.map (·, none) ∧
      Text.trimmed (lastLine before.toList) ≠ ['/'] ∧
      Text.trimmed (firstLine after.toList) ≠ ['/'] ∧
      (Dialect.oracle.splitter.withStripComments false).split (before ++ " " ++ after) =
        [⟨"BEGIN IF a THEN b; END IF; END;", .statement⟩, ⟨"COMMIT", .statement⟩] ∧
      (Dialect.oracle.splitter.withStripComments false).split (before ++ "\n" ++ after) =
        [⟨"BEGIN IF a THEN b; END\nIF;", .statement⟩, ⟨"END", .statement⟩,
          ⟨"COMMIT", .statement⟩] := by
  decide +kernel

end SchemaChange.Script
