import SchemaChange.Proofs.Script.OneStatement
import SchemaChange.Proofs.Sql.SingleBatch

/-!
# Dynamic execution

A block runs statements that the engine takes one at a time: each is the text of a string literal
behind EXECUTE IMMEDIATE. Whatever these texts hold, the block is one batch, and the literals in
it stand for the statements.
-/
namespace SchemaChange

open Script

namespace Script

/-! ## What a script executes -/

/-- What stands before a text that is executed. -/
def executes : List Char := "EXECUTE IMMEDIATE ".toList

/-- The text that a string literal at the beginning stands for. -/
def literal? (tags : List (Char × Option Range)) : Option String :=
  match (tags.takeWhile fun tag => tag.2 = some (quotedTo '\x27')).map Prod.fst with
  | '\x27' :: cs =>
      some (String.ofList (Text.replaceAll ['\x27', '\x27'] ['\x27'] cs.dropLast))
  | _ => none

/-- The texts of the literals behind EXECUTE IMMEDIATE, in order. -/
def executedFrom : List (Char × Option Range) → List String
  | [] => []
  | tag :: tags =>
      if (executes.map (·, none)).isPrefixOf (tag :: tags) then
        (literal? ((tag :: tags).drop executes.length)).toList ++ executedFrom tags
      else executedFrom tags

/-- The texts that a script of Oracle executes. -/
def executed (script : String) : List String :=
  executedFrom (tagged Dialect.oracle.splitter.ranges [] script.toList)

/-- No EXECUTE IMMEDIATE begins in the text, whatever follows it. -/
def misses : List Char → Bool
  | [] => true
  | c :: cs => !executes.isPrefixOf (c :: cs) && !(c :: cs).isPrefixOf executes && misses cs

section Executed

variable {cs : List Char} {tags rest : List (Char × Option Range)}

theorem replaceAll_doubleQuotes (cs : List Char) :
    Text.replaceAll ['\x27', '\x27'] ['\x27'] (doubleQuotes cs) = cs := by
  induction cs with
  | nil => simp [doubleQuotes, Text.replaceAll]
  | cons c cs ih =>
      by_cases hc : c = '\x27'
      · subst hc
        have hpair : doubleQuotes ('\x27' :: cs) = ['\x27', '\x27'] ++ doubleQuotes cs := rfl
        rw [hpair, Text.replaceAll_occurrence (List.cons_ne_nil _ _), ih]
        rfl
      · have hsingle : doubleQuotes (c :: cs) = [c] ++ doubleQuotes cs := by
          simp [doubleQuotes, hc]
        have hother : '\x27' ∉ [c] := by simpa using Ne.symm hc
        rw [hsingle, Text.replaceAll_append hother, ih]
        rfl

theorem executes_eq : executes = 'E' :: "XECUTE IMMEDIATE ".toList := rfl

/-- Plain text in which nothing is executed is passed over. -/
theorem executedFrom_of_misses (h : misses cs) (rest : List (Char × Option Range)) :
    executedFrom (cs.map (·, none) ++ rest) = executedFrom rest := by
  have hchars : ∀ cs : List Char, (cs.map (·, (none : Option Range))).map Prod.fst = cs :=
    fun cs => (List.map_map ..).trans (List.map_id _)
  induction cs with
  | nil => rfl
  | cons c cs ih =>
      simp only [misses, Bool.and_eq_true, Bool.not_eq_true', Bool.eq_false_iff, ne_eq,
        List.isPrefixOf_iff_prefix] at h
      obtain ⟨⟨hlonger, hshorter⟩, hbehind⟩ := h
      have hnone : ¬ executes.map (·, none) <+: (c :: cs).map (·, none) ++ rest := by
        intro hoccurs
        rcases List.prefix_or_prefix_of_prefix hoccurs (List.prefix_append _ rest) with hp | hp
        · exact hlonger (by simpa only [hchars] using hp.map Prod.fst)
        · exact hshorter (by simpa only [hchars] using hp.map Prod.fst)
      rw [← List.isPrefixOf_iff_prefix] at hnone
      rw [← ih hbehind]
      exact if_neg hnone

theorem executedFrom_ranged (cs : List Char) (r : Range) (rest : List (Char × Option Range)) :
    executedFrom (cs.map (·, some r) ++ rest) = executedFrom rest := by
  induction cs with
  | nil => rfl
  | cons c cs ih =>
      rw [List.map_cons, List.cons_append, executedFrom, if_neg, ih]
      rw [List.isPrefixOf_iff_prefix, executes_eq, List.map_cons, List.cons_prefix_cons]
      rintro ⟨⟨⟩, -⟩

theorem misses_of_not_mem (h : 'E' ∉ cs) : misses cs := by
  induction cs with
  | nil => rfl
  | cons c cs ih =>
      rw [List.mem_cons, not_or] at h
      have hlonger : executes.isPrefixOf (c :: cs) = false := by
        rw [Bool.eq_false_iff, Ne, List.isPrefixOf_iff_prefix, executes_eq, List.cons_prefix_cons]
        exact fun hp => h.1 hp.1
      have hshorter : (c :: cs).isPrefixOf executes = false := by
        rw [Bool.eq_false_iff, Ne, List.isPrefixOf_iff_prefix, executes_eq, List.cons_prefix_cons]
        exact fun hp => h.1 hp.1.symm
      rw [misses, hlonger, hshorter, ih h.2]
      rfl

end Executed

/-! ## Blocks that execute texts -/

/-- What stands before a literal on its line. -/
def executionLead (indent : Nat) : List Char :=
  '\n' :: (List.replicate indent ' ' ++ executes)

/-- A text as a literal. -/
def quoted (text : List Char) : List Char := '\x27' :: (doubleQuotes text ++ ['\x27'])

/-- A block that executes some texts one after the other. -/
def executing (indent : Nat) (texts : List (List Char)) (ending : List Char) : List Char :=
  "BEGIN".toList ++ texts.flatMap (fun text => executionLead indent ++ (quoted text ++ [';'])) ++
    ending

theorem executing_eq (indent : Nat) (texts : List (List Char)) (ending : List Char) :
    executing indent texts ending = "BEGIN".toList ++
      (texts.flatMap (fun text => executionLead indent ++ (quoted text ++ [';'])) ++ ending) :=
  List.append_assoc _ _ _

/-- The characters of such a block with their ranges. -/
def executingTags (indent : Nat) (texts : List (List Char)) (ending : List Char) :
    List (Char × Option Range) :=
  texts.flatMap (fun text => (executionLead indent).map (·, none) ++
    ((quoted text).map (·, some (quotedTo '\x27')) ++ [(';', none)])) ++ ending.map (·, none)

/-- What can stand behind the texts: plain lines that end the block. -/
structure BlockEnding (ending : List Char) : Prop where
  plain : tagged Dialect.oracle.splitter.ranges [] ending = ending.map (·, none)
  unslashed : '/' ∉ ending
  nextLine : ending.head? = some '\n'
  closed : ending.getLast? = some ';'
  ends : firstEnd (inBlock [.block]) (lexemes none ending) = some (inBlock [], [])
  misses : misses ending

section Block

variable {ending : List Char} (indent : Nat)

theorem doubled_doubleQuotes (text : List Char) : Doubled '\x27' (doubleQuotes text) := by
  induction text with
  | nil => exact .nil
  | cons c text ih =>
      rw [doubleQuotes, List.flatMap_cons]
      split
      · exact ih.pair
      · exact .other ‹_› ih

theorem tagged_execution (text rest : List Char) :
    tagged Dialect.oracle.splitter.ranges []
        (executionLead indent ++ (quoted text ++ ';' :: rest)) =
      (executionLead indent).map (·, none) ++ ((quoted text).map (·, some (quotedTo '\x27')) ++
        (';', none) :: tagged Dialect.oracle.splitter.ranges [] rest) := by
  have hlead : ∀ c ∈ executionLead indent, Foreign Dialect.oracle.splitter.ranges c := by
    have hexecutes : ∀ c ∈ executes, Foreign Dialect.oracle.splitter.ranges c :=
      foreign_of_all (by decide)
    intro c hc
    simp only [executionLead, List.mem_cons, List.mem_append, List.mem_replicate] at hc
    rcases hc with rfl | ⟨-, rfl⟩ | hc
    · decide
    · decide
    · exact hexecutes c hc
  have hbehind : (';' :: rest).head? ≠ some '\x27' := by simp
  have hliteral := tagged_quoted (quotes_single .oracle) (doubled_doubleQuotes text) hbehind
  rw [tagged_semicolon] at hliteral
  rw [tagged_outside hlead, quoted, List.cons_append, List.append_assoc, List.singleton_append]
  exact congrArg _ hliteral

theorem tagged_executing (h : BlockEnding ending) (texts : List (List Char)) :
    tagged Dialect.oracle.splitter.ranges [] (executing indent texts ending) =
      "BEGIN".toList.map (·, none) ++ executingTags indent texts ending := by
  have hbegin : ∀ c ∈ "BEGIN".toList, Foreign Dialect.oracle.splitter.ranges c :=
    foreign_of_all (by decide)
  rw [executing_eq, tagged_outside hbegin]
  refine congrArg _ ?_
  induction texts with
  | nil => exact h.plain
  | cons text texts ih =>
      rw [executingTags] at ih
      rw [executingTags, List.flatMap_cons, List.flatMap_cons]
      simp only [List.append_assoc, List.cons_append, List.nil_append] at ih ⊢
      rw [tagged_execution, ih]

/-! ### The texts that it executes -/

/-- A literal stands for the text in it. -/
theorem literal?_quoted (text : List Char) (rest : List (Char × Option Range)) :
    literal? ((quoted text).map (·, some (quotedTo '\x27')) ++ (';', none) :: rest) =
      some (String.ofList text) := by
  have htake : ((quoted text).map (·, some (quotedTo '\x27')) ++ (';', none) :: rest).takeWhile
      (fun tag => tag.2 = some (quotedTo '\x27')) =
        (quoted text).map (·, some (quotedTo '\x27')) := by
    rw [List.takeWhile_append_of_pos (by simp), List.takeWhile_cons, if_neg (by simp),
      List.append_nil]
  have hchars : ((quoted text).map (·, some (quotedTo '\x27'))).map Prod.fst = quoted text :=
    (List.map_map ..).trans (List.map_id _)
  rw [literal?, htake, hchars, quoted]
  simp only [List.dropLast_concat, replaceAll_doubleQuotes]

theorem executedFrom_execution (text : List Char) (rest : List (Char × Option Range)) :
    executedFrom ((executionLead indent).map (·, none) ++
      ((quoted text).map (·, some (quotedTo '\x27')) ++ (';', none) :: rest)) =
        String.ofList text :: executedFrom rest := by
  have hlead : misses ('\n' :: List.replicate indent ' ') := misses_of_not_mem (by simp)
  have hword : misses "XECUTE IMMEDIATE ".toList := by decide
  have hsemi : misses [';'] := by decide
  have hbehind : executedFrom ((quoted text).map (·, some (quotedTo '\x27')) ++
      (';', none) :: rest) = executedFrom rest := by
    rw [executedFrom_ranged]
    exact executedFrom_of_misses hsemi rest
  have hhere : ∀ tags : List (Char × Option Range), executedFrom (executes.map (·, none) ++ tags) =
      (literal? tags).toList ++ executedFrom tags := by
    intro tags
    have hoccurs : (executes.map (·, (none : Option Range))).isPrefixOf
        (executes.map (·, none) ++ tags) := by
      rw [List.isPrefixOf_iff_prefix]
      exact List.prefix_append ..
    have hdrop : (executes.map (·, (none : Option Range)) ++ tags).drop executes.length = tags := by
      rw [← List.length_map, List.drop_left]
    rw [executes_eq, List.map_cons, List.cons_append] at hoccurs hdrop ⊢
    rw [executedFrom, executes_eq, List.map_cons, if_pos hoccurs, hdrop,
      executedFrom_of_misses hword]
  rw [executionLead, ← List.cons_append, List.map_append, List.append_assoc,
    executedFrom_of_misses hlead, hhere, literal?_quoted, hbehind]
  rfl

theorem executed_executing (h : BlockEnding ending) (texts : List (List Char)) :
    executed (String.ofList (executing indent texts ending)) = texts.map String.ofList := by
  have hbegin : misses "BEGIN".toList := by decide
  rw [executed, String.toList_ofList, tagged_executing indent h, executedFrom_of_misses hbegin]
  induction texts with
  | nil => simpa [executingTags, executedFrom] using executedFrom_of_misses h.misses []
  | cons text texts ih =>
      rw [executingTags] at ih
      rw [executingTags, List.flatMap_cons]
      simp only [List.append_assoc, List.cons_append, List.nil_append] at ih ⊢
      rw [executedFrom_execution, ih]
      rfl

/-! ### One batch -/

theorem firstEnd_spaces (s : BlockState) (cs : List Char) :
    firstEnd s (lexemes none (List.replicate indent ' ' ++ cs)) = firstEnd s (lexemes none cs) := by
  have hspace : ∀ cs : List Char, lexemes (some ' ') cs = lexemes none cs :=
    lexemes_congr (by decide) (by decide)
  induction indent with
  | zero => rfl
  | succ n ih =>
      rw [List.replicate_succ, List.cons_append, lexemes_other (by decide) (by decide), firstEnd,
        hspace, ih]

/-- Words that end no statement lead to the state behind them. -/
theorem firstEnd_words {s s' : BlockState} {cs more : List Char}
    (hwords : followWords s none cs = (s', none)) (hline : '\n' ∉ cs) (hmore : Stops more) :
    firstEnd s (lexemes none (cs ++ more)) = firstEnd s' (lexemes none more) := by
  rw [firstEnd_lexemes s none hline hmore, hwords]

/-- Executing a text leaves the block open. -/
theorem firstEnd_execution (previous : Option Char) (text : List Char) {more : List Char}
    (hmore : Stops more) :
    firstEnd (inBlock [.block]) (lexemes previous (executionLead indent ++
      (outside ((quoted text).map (·, some (quotedTo '\x27'))) ++ ';' :: more))) =
        firstEnd (inBlock [.block]) (lexemes none more) := by
  have hquote : Stops (outside ((quoted text).map (·, some (quotedTo '\x27'))) ++ ';' :: more) := by
    rintro c ⟨⟩
    exact .inl rfl
  have hwords : followWords (inBlock [.block]) none executes = (inBlock [.block], none) := by
    decide +kernel
  have hexecutes := firstEnd_words hwords (by decide) hquote
  have hsemi : firstEnd (inBlock [.block]) (lexemes none (';' :: more)) =
      firstEnd (inBlock [.block]) (lexemes none more) :=
    firstEnd_words (by decide +kernel) (by decide : '\n' ∉ [';']) hmore
  have hliteral : quoted text ≠ [] := List.cons_ne_nil _ _
  rw [executionLead, List.cons_append, lexemes_stop (.inr rfl), firstEnd, List.append_assoc,
    firstEnd_spaces, hexecutes, firstEnd_ranged _ _ _ hliteral, hsemi]

theorem stops_executingTags (h : BlockEnding ending) (texts : List (List Char)) :
    Stops (outside (executingTags indent texts ending)) := by
  cases texts with
  | nil =>
      rw [executingTags, List.flatMap_nil, List.nil_append, outside_plain]
      intro c hc
      exact .inr (Option.some.inj (hc.symm.trans h.nextLine))
  | cons text texts =>
      rintro c ⟨⟩
      exact .inr rfl

/-- The block ends with its last character. -/
theorem firstEnd_executing (h : BlockEnding ending) (texts : List (List Char)) :
    firstEnd {} (Dialect.oracle.splitter.lexemesFrom none [] (executing indent texts ending)) =
      some (inBlock [], []) := by
  have hbegin : followWords {} none "BEGIN".toList = (inBlock [.block], none) := by decide +kernel
  rw [Splitter.lexemesFrom, tagged_executing indent h, outside_append, outside_plain,
    firstEnd_words hbegin (by decide) (stops_executingTags indent h texts)]
  induction texts with
  | nil =>
      rw [executingTags, List.flatMap_nil, List.nil_append, outside_plain]
      exact h.ends
  | cons text texts ih =>
      have hmore := firstEnd_execution indent none text (stops_executingTags indent h texts)
      rw [← ih, ← hmore]
      simp [executingTags, outside_append, shown]

theorem not_mem_outside_executing (h : BlockEnding ending) (texts : List (List Char)) :
    '/' ∉ outside (tagged Dialect.oracle.splitter.ranges [] (executing indent texts ending)) := by
  have hlead : '/' ∉ executionLead indent := by
    have hexecutes : '/' ∉ executes := by decide
    simp [executionLead, hexecutes]
  have hinside : ∀ text, '/' ∉ outside ((quoted text).map (·, some (quotedTo '\x27'))) := by
    intro text
    simp [outside]
  have hbegin : '/' ∉ "BEGIN".toList := by decide
  rw [tagged_executing indent h, outside_append, outside_plain, List.mem_append, not_or]
  refine ⟨hbegin, ?_⟩
  induction texts with
  | nil => simpa [executingTags] using h.unslashed
  | cons text texts ih =>
      rw [executingTags] at ih ⊢
      simp only [List.flatMap_cons, outside_append, outside_plain, List.append_assoc,
        List.mem_append, not_or] at ih ⊢
      exact ⟨hlead, hinside text, by decide, ih⟩

theorem split_executing (h : BlockEnding ending) (texts : List (List Char)) :
    Dialect.oracle.splitter.split (String.ofList (executing indent texts ending)) =
      [⟨String.ofList (executing indent texts ending), .statement⟩] := by
  have hfirst : ∀ c, (executing indent texts ending).head? = some c → Text.isBlank c = false := by
    rintro c ⟨⟩
    decide
  have hlast : ∀ c, (executing indent texts ending).getLast? = some c → Text.isBlank c = false := by
    intro c hc
    rw [executing_eq, List.getLast?_append, List.getLast?_append, h.closed] at hc
    cases hc
    decide
  refine split_of_one (s := inBlock []) keepsBlocks_oracle rfl ?_ ?_ rfl ?_
  · rw [String.toList_ofList]
    exact not_mem_outside_executing indent h texts
  · rw [String.toList_ofList]
    exact firstEnd_executing indent h texts
  · rw [String.toList_ofList]
    exact Text.trimmed_eq_self hfirst hlast

end Block

/-! ## Several statements -/

/-- A statement as it is executed. -/
def bare (statement : String) : String :=
  String.ofList (dropSemicolons (Text.trimmed statement.toList))

/-- The semicolons at the end are dropped, and nothing else. -/
theorem exists_bare (statement : String) :
    (∃ n, Text.trimmed statement.toList = (bare statement).toList ++ List.replicate n ';') ∧
      (bare statement).toList.getLast? ≠ some ';' := by
  rw [bare, String.toList_ofList, dropSemicolons, List.getLast?_reverse]
  generalize Text.trimmed statement.toList = cs
  have hdropped : ∀ c ∈ cs.reverse.takeWhile (· == ';'), c = ';' := fun c hc => by
    simpa using List.all_eq_true.1 List.all_takeWhile c hc
  refine ⟨⟨(cs.reverse.takeWhile (· == ';')).length, ?_⟩, fun hlast => ?_⟩
  · rw [← List.reverse_replicate, ← List.eq_replicate_of_mem hdropped, ← List.reverse_append,
      List.takeWhile_append_dropWhile, List.reverse_reverse]
  · have hhead := List.head?_dropWhile_not (· == ';') cs.reverse
    rw [hlast] at hhead
    exact absurd hhead (by decide)

theorem blockEnding_block : BlockEnding "\nEND;".toList where
  plain := by decide +kernel
  unslashed := by decide
  nextLine := rfl
  closed := rfl
  ends := by decide +kernel
  misses := by decide

theorem blockEntry_eq {statement : String}
    (h : isBlock (Text.trimmed statement.toList) = false) :
    blockEntry statement = executionLead 0 ++ (quoted (bare statement).toList ++ [';']) := by
  have hlead : "\nEXECUTE IMMEDIATE '".toList = executionLead 0 ++ ['\x27'] := by decide
  have hentry : blockEntry statement = "\nEXECUTE IMMEDIATE '".toList ++
      doubleQuotes (dropSemicolons (Text.trimmed statement.toList)) ++ "';".toList :=
    if_neg (by simp [h])
  rw [hentry, hlead, bare, String.toList_ofList, quoted]
  simp

theorem block_eq {statements : List String}
    (h : ∀ s ∈ statements, isBlock (Text.trimmed s.toList) = false) :
    block statements = String.ofList (executing 0 (statements.map fun s => (bare s).toList)
      "\nEND;".toList) := by
  have hmiddle : statements.flatMap blockEntry =
      statements.flatMap fun s => executionLead 0 ++ (quoted (bare s).toList ++ [';']) :=
    congrArg List.flatten (List.map_congr_left fun s hs => blockEntry_eq (h s hs))
  rw [executing_eq, List.flatMap_map, ← hmiddle, ← List.append_assoc]
  rfl

end Script

/-! ## A table that may be missing -/

namespace Dialect.Oracle

/-- What stands behind the statement that drops a table. -/
def passOver : List Char :=
  ("\nEXCEPTION\n  WHEN OTHERS THEN\n    IF SQLCODE != -942 THEN\n      RAISE;\n" ++
    "    END IF;\nEND;" : String).toList

theorem blockEnding_passOver : BlockEnding passOver where
  plain := by decide +kernel
  unslashed := by decide
  nextLine := rfl
  closed := by decide
  ends := by decide +kernel
  misses := by decide

theorem flatMap_escape (cs : List Char) : cs.flatMap (Quoter.escape .oracle) = doubleQuotes cs := by
  refine congrArg List.flatten (List.map_congr_left fun c _ => ?_)
  simp [Quoter.escape]

theorem chars_text (o : Options) (s : String) :
    Sql.chars (quoter o) (Sql.text s) = quoted s.toList := by
  rw [Sql.text, Sql.chars_singleton, Piece.write, Quoter.string, String.toList_ofList,
    show (quoter o).dialect = .oracle from rfl, flatMap_escape]
  rfl

theorem write_dropTableIfExists (o : Options) (table : Sql) :
    Sql.write (quoter o) (dropTableIfExists (quoter o) table) =
      String.ofList (executing 2 [(Sql.write (quoter o) ("DROP TABLE " ++ table)).toList]
        passOver) := by
  have hlead : "BEGIN\n  EXECUTE IMMEDIATE ".toList = "BEGIN".toList ++ executionLead 2 := by decide
  have hbehind : (";\nEXCEPTION\n  WHEN OTHERS THEN\n    IF SQLCODE != -942 THEN\n      RAISE;\n" ++
      "    END IF;\nEND;" : String).toList = ';' :: passOver := by decide
  apply String.toList_injective
  rw [Sql.toList_write, String.toList_ofList]
  unfold dropTableIfExists
  rw [executing_eq, Sql.chars_append, Sql.chars_append, chars_text, Sql.chars_singleton, Sql.chars_singleton,
    Piece.write, Piece.write, hlead, hbehind]
  simp only [List.flatMap_cons, List.flatMap_nil, List.append_assoc, List.append_nil,
    List.cons_append, List.nil_append]

end Dialect.Oracle

theorem not_blank_of_code {code : String} (h : Text.allBlank code = false) (q : Quoter)
    (sql : Sql) : (Sql.chars q (.code code :: sql)).all Text.isBlank = false := by
  rw [Text.allBlank] at h
  rw [Sql.chars, List.flatMap_cons, List.all_append, Piece.write, h]
  rfl

/-- Dropping a table that may be missing executes the statement that drops it otherwise. -/
theorem exists_generate_dropTableIfExists (mode : Mode) (o : Options) {table : ObjectName}
    (hvalid : (Change.deleteTable table true).validate = .ok ()) : ∃ script plain,
      (Profile.of .oracle mode o).generate (.deleteTable table true) = .ok script ∧
      (Profile.of .oracle mode o).generate (.deleteTable table false) = .ok plain ∧
      Dialect.oracle.splitter.split script = [⟨script, .statement⟩] ∧
      executed script = [plain] := by
  have hplain : (Profile.of .oracle mode o).statements (.deleteTable table false) =
      .ok ["DROP TABLE " ++ (Dialect.Oracle.quoter o).object table] := by
    rw [Profile.statements, show Change.validate (.deleteTable table false) = .ok () from hvalid]
    rfl
  have hscript : (Profile.of .oracle mode o).statements (.deleteTable table true) =
      .ok [Dialect.Oracle.dropTableIfExists (Dialect.Oracle.quoter o)
        ((Dialect.Oracle.quoter o).object table)] := by
    rw [Profile.statements, hvalid]
    rfl
  have htext := Dialect.Oracle.write_dropTableIfExists o ((Dialect.Oracle.quoter o).object table)
  refine ⟨_, _, (generate_one hscript ?_).1, (generate_one hplain ?_).1, ?_, ?_⟩
  · exact not_blank_of_code (by decide) _ _
  · exact not_blank_of_code (by decide) _ _
  · rw [show (Profile.of .oracle mode o).quoter = Dialect.Oracle.quoter o from rfl, htext]
    exact split_executing 2 Dialect.Oracle.blockEnding_passOver _
  · rw [show (Profile.of .oracle mode o).quoter = Dialect.Oracle.quoter o from rfl, htext,
      executed_executing 2 Dialect.Oracle.blockEnding_passOver, List.map_singleton,
      String.ofList_toList]

/-- A block is one batch and executes the statements that it was written for, and so does the
block that drops a table that may be missing. -/
theorem split_dynamicExecution :
    (∀ statements : List String,
      (∀ s ∈ statements, isBlock (Text.trimmed s.toList) = false) →
      Dialect.oracle.splitter.split (block statements) = [⟨block statements, .statement⟩] ∧
        executed (block statements) = statements.map bare ∧
        ∀ s ∈ statements,
          (∃ n, Text.trimmed s.toList = (bare s).toList ++ List.replicate n ';') ∧
            (bare s).toList.getLast? ≠ some ';') ∧
    ∀ (mode : Mode) (o : Options) (table : ObjectName),
      (Change.deleteTable table true).validate = .ok () →
      ∃ script plain,
        (Profile.of .oracle mode o).generate (.deleteTable table true) = .ok script ∧
        (Profile.of .oracle mode o).generate (.deleteTable table false) = .ok plain ∧
        Dialect.oracle.splitter.split script = [⟨script, .statement⟩] ∧
        executed script = [plain] := by
  refine ⟨fun statements h => ?_, fun mode o table => exists_generate_dropTableIfExists mode o⟩
  rw [block_eq h, executed_executing 0 blockEnding_block, List.map_map]
  refine ⟨split_executing 0 blockEnding_block _, List.map_congr_left fun s _ => ?_,
    fun s _ => exists_bare s⟩
  exact String.ofList_toList

theorem split_dynamicExecution_quotes :
    let statements := ["INSERT INTO t VALUES ('it''s;\n/\nEND');; ", " COMMIT"]
    let table : ObjectName := ⟨"O'Brien", some "s"⟩
    let p := Profile.of .oracle .strict { quoteIdentifiers := some true }
    (∀ s ∈ statements, isBlock (Text.trimmed s.toList) = false) ∧
      executed (block statements) = ["INSERT INTO t VALUES ('it''s;\n/\nEND')", "COMMIT"] ∧
      (Change.deleteTable table true).validate = .ok () ∧
      ∃ script, p.generate (.deleteTable table true) = .ok script ∧
        Dialect.oracle.splitter.split script = [⟨script, .statement⟩] ∧
        executed script = ["DROP TABLE \"s\".\"O'Brien\""] := by
  intro statements table p
  have hstatements : ∀ s ∈ statements, isBlock (Text.trimmed s.toList) = false := by decide +kernel
  have hvalid : (Change.deleteTable table true).validate = .ok () := by decide +kernel
  obtain ⟨-, hexecuted, -⟩ := split_dynamicExecution.1 statements hstatements
  obtain ⟨script, plain, hscript, hplain, hsplit, hdrop⟩ :=
    split_dynamicExecution.2 .strict { quoteIdentifiers := some true } table hvalid
  have htext : p.generate (.deleteTable table false) = .ok "DROP TABLE \"s\".\"O'Brien\"" := by
    decide +kernel
  obtain rfl := Except.ok.inj (hplain.symm.trans htext)
  exact ⟨hstatements, hexecuted.trans (by decide +kernel), hvalid, script, hscript, hsplit, hdrop⟩

end SchemaChange
