import SchemaChange.Proofs.Script.BlockScan

/-!
# Packages and local subprograms

One counter of open blocks tells where a statement ends. Inside a package it is never zero,
so routines nest in it to any depth and the package is one batch. A subprogram in the
declarations of a unit that is no package ends the statement with its own END, and the block
that initialises a package opens what nothing closes.
-/
namespace SchemaChange.Script

/-- Up to the last declaration of a package. -/
inductive PackageHeading : List Lexeme → Prop
  | create {replace items} (hreplace : replace ∈ [[], [.word "OR", .word "REPLACE"]])
      (hitems : Body items) :
      PackageHeading (.word "CREATE" :: (replace ++ .word "PACKAGE" :: items))

/-- A package whose END closes its declarations. -/
inductive PackageUnit : List Lexeme → Prop
  | package {heading} {label : Option String} (hheading : PackageHeading heading)
      (hlabel : ∀ w ∈ label, (Lexeme.word w).isOrdinary) :
      PackageUnit (heading ++ .word "END" :: (label.map Lexeme.word).toList)

/-- A package whose declarations are followed by a block that initialises it. -/
inductive InitializedPackage : List Lexeme → Prop
  | package {heading body} {label : Option String} (hheading : PackageHeading heading)
      (hbody : Body body) (hlabel : ∀ w ∈ label, (Lexeme.word w).isOrdinary) :
      InitializedPackage (heading ++ .word "BEGIN" ::
        (body ++ .word "END" :: (label.map Lexeme.word).toList))

/-- The beginning of a unit that is no package, up to the END of the first subprogram in its
declarations. -/
inductive LocalSubprogram : List Lexeme → Prop
  | declared {heading kind decls body} {label : Option String} (hheading : Heading heading)
      (hne : heading ≠ []) (hkind : kind ∈ ["PROCEDURE", "FUNCTION"])
      (hdecls : ∀ l ∈ decls, l.isDeclarative) (hbody : Body body)
      (hlabel : ∀ w ∈ label, (Lexeme.word w).isOrdinary) :
      LocalSubprogram (heading ++ .word kind :: (decls ++ .word "BEGIN" ::
        (body ++ .word "END" :: (label.map Lexeme.word).toList)))

section Reading

variable {ls more : List Lexeme} {s : BlockState}

theorem firstEnd_packageHeading (h : PackageHeading ls) (rest : List Lexeme) :
    firstEnd {} (ls ++ rest) = firstEnd (inBlock [.block]) rest := by
  obtain @⟨replace, items, hreplace, hitems⟩ := h
  have hfirst : ∀ ls, firstEnd {} (.word "CREATE" :: (replace ++ .word "PACKAGE" :: ls)) =
      firstEnd (inBlock [.block]) ls := by
    simp only [List.mem_cons, List.not_mem_nil, or_false] at hreplace
    intro ls
    rcases hreplace with rfl | rfl <;> rfl
  rw [List.cons_append, List.append_assoc, List.cons_append, hfirst, firstEnd_body hitems (by simp)]

theorem firstEnd_packageUnit (h : PackageUnit ls) :
    firstEnd {} (ls ++ [.semicolon]) = some (inBlock [], []) := by
  obtain @⟨heading, label, hheading, hlabel⟩ := h
  have hlast : ∀ ls, firstEnd (inBlock [.block]) (.word "END" :: ls) =
      firstEnd (inBlock []) ls := fun _ => rfl
  rw [List.append_assoc, List.cons_append, firstEnd_packageHeading hheading, hlast,
    firstEnd_label hlabel]
  rfl

/-- The declarations of a unit hold any words but those that open and close blocks, so a
subprogram with its block is as good as the whole unit. -/
theorem programUnit_of_localSubprogram (h : LocalSubprogram ls) : ProgramUnit ls := by
  obtain @⟨heading, kind, decls, body, label, hheading, hne, hkind, hdecls, hbody, hlabel⟩ := h
  have hkind' : (Lexeme.word kind).isDeclarative := by
    simp only [List.mem_cons, List.not_mem_nil, or_false] at hkind
    rcases hkind with rfl | rfl <;> decide
  have hlonger : Heading (heading ++ .word kind :: decls) := by
    have hothers : ∀ l ∈ Lexeme.word kind :: decls, l.isDeclarative :=
      List.forall_mem_cons.2 ⟨hkind', hdecls⟩
    have hboth : ∀ {earlier : List Lexeme}, (∀ l ∈ earlier, l.isDeclarative) →
        ∀ l ∈ earlier ++ .word kind :: decls, l.isDeclarative := fun h =>
      List.forall_mem_append.2 ⟨h, hothers⟩
    cases hheading with
    | nothing => exact absurd rfl hne
    | declare h => exact .declare (hboth h)
    | create hreplace hunit h => simpa using Heading.create hreplace hunit (hboth h)
  simpa using ProgramUnit.block hlonger hbody hlabel

/-- The END of an initialised package closes its last block only. -/
theorem firstEnd_initializedPackage (h : InitializedPackage ls) (hmore : Body more) :
    firstEnd {} (ls ++ .semicolon :: more) = none := by
  obtain @⟨heading, body, label, hheading, hbody, hlabel⟩ := h
  have hfirst : ∀ ls, firstEnd (inBlock [.block]) (.word "BEGIN" :: ls) =
      firstEnd (inBlock [.block, .block]) ls := fun _ => rfl
  have hlast : ∀ ls, firstEnd (inBlock [.block, .block]) (.word "END" :: ls) =
      firstEnd (inBlock [.block]) ls := fun _ => rfl
  have hsemi : ∀ ls, firstEnd (inBlock [.block]) (.semicolon :: ls) =
      firstEnd (inBlock [.block]) ls := fun _ => rfl
  have hend := firstEnd_body hmore (List.cons_ne_nil Opener.block []) []
  rw [List.append_nil] at hend
  rw [List.append_assoc, List.cons_append, firstEnd_packageHeading hheading, hfirst,
    List.append_assoc, List.cons_append, firstEnd_body hbody (by simp), hlast,
    firstEnd_label hlabel, hsemi, hend]
  rfl

/-- Whether a statement ends is told by its words and semicolons alone. -/
theorem firstEnd_eq_none_of_filter (h : firstEnd s (ls.filter (· ≠ .other)) = none) :
    firstEnd s ls = none := by
  induction ls generalizing s with
  | nil => rfl
  | cons l ls ih =>
      cases l with
      | word w | ending w | other => exact ih h
      | semicolon =>
          rw [List.filter_cons_of_pos (by decide), firstEnd] at h
          rw [firstEnd]
          split at h
          · cases h
          · rw [if_neg ‹_›]
            exact ih h

end Reading

/-! ## Statements without an end -/

section Unended

variable {sp : Splitter} {st st' : ScanState} {c : Cursor} {es : List Event}

/-- A mark ends the statement of the lexemes as well. -/
theorem firstEnd_ne_none_of_mark (hsp : sp.KeepsBlocks) {tail : List Char}
    (ht : Text.EndsLine tail) (hline : '\n' ∉ c.rest) {blocks blocks' : BlockState} {n : Nat}
    {kept : Bool} (hfind : findToken sp blocks c = (blocks', some (.mark n kept))) :
    firstEnd blocks (sp.lexemesFrom c.passed.head? [] (c.rest ++ tail)) ≠ none := by
  obtain ⟨s, hfollow, -, -⟩ := followWords_of_mark hsp.separator hfind
  rw [lexemesFrom_plain hsp.ranges ht, firstEnd_lexemes blocks _
    (fun h => hline (List.mem_of_mem_take h)) (stops_plain hsp.ranges ht), hfollow]
  nofun

/-- While the statement has no end, a line holds no cut and hands on its state. -/
theorem LineScan.unended (hsp : sp.KeepsBlocks) (h : LineScan sp st c es st')
    (hopen : ∀ r ∈ st.ranges, r ∈ sp.ranges) (hslash : c.Unslashed) (hline : '\n' ∉ c.rest)
    {tail : List Char} (ht : Text.EndsLine tail) {previous : Option Char}
    (hprevious : st.ranges = [] → c.rest ≠ [] →
      ∀ cs, lexemes previous cs = lexemes c.passed.head? cs)
    (hend : firstEnd st.blocks (sp.lexemesFrom previous st.ranges (c.rest ++ tail)) = none) :
    (∀ e ∈ es, e.isText) ∧
      firstEnd st'.blocks (sp.lexemesFrom none st'.ranges tail) = none := by
  have unread : ∀ {c : Cursor} (n : Nat), '\n' ∉ c.rest → '\n' ∉ (c.advance n).rest :=
    fun n h hmem => h (List.mem_of_mem_drop hmem)
  induction h generalizing previous with
  | @closes r outer blocks c n es st hfind next ih =>
      obtain ⟨hr, houter⟩ := List.forall_mem_cons.1 hopen
      obtain ⟨previous', hnext, hstep⟩ :=
        firstEnd_closes hsp hr hline ht hfind blocks outer previous
      obtain ⟨htexts, hend'⟩ := ih houter (hslash.advance _) (unread _ hline) (fun _ => hnext)
        (hstep.symm.trans hend)
      exact ⟨List.forall_mem_cons.2 ⟨rfl, htexts⟩, hend'⟩
  | @nests r outer blocks c n es st hfind next ih =>
      have hr := hopen r (List.mem_cons_self ..)
      have hstep := firstEnd_nests hsp hr ht hfind blocks outer previous
      obtain ⟨htexts, hend'⟩ := ih (List.forall_mem_cons.2 ⟨hr, hopen⟩) (hslash.advance _)
        (unread _ hline) (fun h => absurd h (List.cons_ne_nil _ _)) (hstep.symm.trans hend)
      exact ⟨List.forall_mem_cons.2 ⟨rfl, htexts⟩, hend'⟩
  | @stays r outer blocks c hfind =>
      have hr := hopen r (List.mem_cons_self ..)
      have hstep := firstEnd_stays hsp hr ht hfind blocks outer previous
      exact ⟨by simp [Event.isText], hstep.symm.trans hend⟩
  | ends hrest =>
      rw [Splitter.lexemesFrom, hrest, List.nil_append, (stops_outside _ _ ht).lexemes] at hend
      exact ⟨by simp, hend⟩
  | keeps hrest hfind next ih | drops hrest hfind next ih =>
      rw [Splitter.lexemesFrom, hprevious rfl hrest] at hend
      exact absurd hend (firstEnd_ne_none_of_mark hsp ht hline hfind)
  | @wholeLine blocks blocks' c kind hrest hfind =>
      obtain ⟨hpassed, ⟨hgo, -⟩ | ⟨-, -, -, hafter, hlone⟩⟩ := find_wholeLine hfind
      · rw [hsp.separator] at hgo
        cases hgo
      · have hall : (plainAt c (plainLength sp c)).text = c.rest :=
          List.take_of_length_le (List.drop_eq_nil_iff.1 hafter)
        rw [hall] at hlone
        exact absurd hlone (hslash hpassed)
  | @plain blocks blocks' c hrest hrange hfind =>
      rw [Splitter.lexemesFrom, hprevious rfl hrest] at hend
      have hstep := firstEnd_of_none hsp ht hline hfind
      have hall : (c.advance (plainLength sp c)).rest = [] := by simp [plainLength, hrange]
      rw [hall] at hstep
      exact ⟨by simp [Event.isText], hstep.symm.trans hend⟩
  | opens hrest hrange hfind next ih =>
      rw [Splitter.lexemesFrom, hprevious rfl hrest] at hend
      have hmem := (opening_le hrange).1
      have hstep := firstEnd_opens hsp hline ht hrange hfind
      obtain ⟨htexts, hend'⟩ := ih (by simpa using hmem) (hslash.advance _) (unread _ hline)
        (fun h => absurd h (List.cons_ne_nil _ _)) (hstep.symm.trans hend)
      exact ⟨List.forall_mem_cons.2 ⟨rfl, List.forall_mem_cons.2 ⟨rfl, htexts⟩⟩, hend'⟩

theorem scanLines_unended (hsp : sp.KeepsBlocks) (hopen : LeftOpen sp st.ranges)
    {lines : List (List Char)} (hlines : ∀ line ∈ lines, '\n' ∉ line)
    (hslash : ∀ line ∈ lines, Text.trimmed line ≠ ['/'])
    (hend : firstEnd st.blocks (sp.lexemesFrom none st.ranges (lines.flatMap ('\n' :: ·))) =
      none) : ∀ e ∈ scanLines sp st lines, e.isText := by
  induction lines generalizing st with
  | nil => simp [scanLines]
  | cons line lines ih =>
      have hscan := lineScan_scanLine sp st (.ofLine line)
      rw [List.flatMap_cons, List.cons_append, lexemesFrom_newline hsp hopen, firstEnd] at hend
      obtain ⟨htexts, hend'⟩ := hscan.unended hsp hopen.known
        (fun _ => hslash line (List.mem_cons_self ..)) (hlines line (List.mem_cons_self ..))
        (Text.endsLine_lines lines) (fun _ _ _ => rfl) hend
      have hothers := ih (hscan.leftOpen hopen.known)
        (fun l hl => hlines l (List.mem_cons_of_mem _ hl))
        (fun l hl => hslash l (List.mem_cons_of_mem _ hl)) hend'
      exact List.forall_mem_cons.2 ⟨rfl, List.forall_mem_append.2 ⟨htexts, hothers⟩⟩

/-- A script whose first statement has no end holds no separator. -/
theorem scan_unended (hsp : sp.KeepsBlocks) {cs : List Char}
    (hslash : ∀ line ∈ Text.splitOn '\n' cs, Text.trimmed line ≠ ['/'])
    (hend : firstEnd {} (sp.lexemesFrom none [] cs) = none) :
    ∀ e ∈ scan sp cs, e.isText := by
  obtain ⟨line, lines, hsplit⟩ := Text.exists_splitOn '\n' cs
  have hlines : ∀ l ∈ line :: lines, '\n' ∉ l := fun l hl =>
    Text.not_mem_of_mem_splitOn (hsplit ▸ hl)
  rw [hsplit] at hslash
  have hscan := lineScan_scanLine sp {} (.ofLine line)
  rw [Text.splitOn_flatten hsplit] at hend
  obtain ⟨htexts, hend'⟩ := hscan.unended hsp (by simp)
    (fun _ => hslash line (List.mem_cons_self ..)) (hlines line (List.mem_cons_self ..))
    (Text.endsLine_lines lines) (fun _ _ _ => rfl) hend
  have hothers := scanLines_unended hsp (hscan.leftOpen (by simp))
    (fun l hl => hlines l (List.mem_cons_of_mem _ hl))
    (fun l hl => hslash l (List.mem_cons_of_mem _ hl)) hend'
  simp only [scan, hsplit]
  exact List.forall_mem_append.2 ⟨htexts, hothers⟩

end Unended

/-! ## Scripts -/

/-- A text whose words and semicolons outside the ranges of a splitter are those of a unit.
The semicolon behind it lies outside as well, and no line is a lone slash. -/
structure Splitter.IsUnit (sp : Splitter) (grammar : List Lexeme → Prop) (text : List Char) :
    Prop where
  lexemes : ∃ ls, sp.lexemesFrom none [] (text ++ [';']) = ls ++ [.semicolon] ∧
    grammar (ls.filter (· ≠ .other))
  unslashed : ∀ line ∈ Text.splitOn '\n' (text ++ [';']), Text.trimmed line ≠ ['/']

/-- A script with an initialised package, its semicolon, and statements with their blocks
behind it. No line is a lone slash. -/
structure Splitter.StartsInitialized (sp : Splitter) (script : List Char) : Prop where
  lexemes : ∃ unit more, (sp.lexemesFrom none [] script).filter (· ≠ .other) =
    unit ++ .semicolon :: more ∧ InitializedPackage unit ∧ Body more
  unslashed : ∀ line ∈ Text.splitOn '\n' script, Text.trimmed line ≠ ['/']

/-- A word begins with a character that begins words. -/
theorem exists_isWordStart {previous : Option Char} {cs : List Char} {w : String}
    (h : .word w ∈ lexemes previous cs) : ∃ c ∈ cs, isWordStart c := by
  induction cs generalizing previous with
  | nil => simp at h
  | cons c rest ih =>
      by_cases hc : isWordStart c
      · exact ⟨c, List.mem_cons_self .., hc⟩
      · have hbehind : .word w ∈ lexemes (some c) rest := by
          rw [lexemes] at h
          split at h
          · simpa using h
          · simpa [hc] using h
        obtain ⟨c', hmem, hstart⟩ := ih hbehind
        exact ⟨c', List.mem_cons_of_mem _ hmem, hstart⟩

/-- A text with a word outside of all ranges is not blank. -/
theorem not_allBlank_of_word {sp : Splitter} {text : String} {w : String}
    (h : .word w ∈ sp.lexemesFrom none [] text.toList) : Text.allBlank text = false := by
  obtain ⟨c, hmem, hstart⟩ := exists_isWordStart h
  obtain ⟨⟨c', range⟩, htag, hc⟩ := List.mem_map.1 hmem
  have hplain : c' = c := by
    dsimp only at hc
    split at hc
    · exact hc
    · rw [← hc] at hstart
      cases hstart
  have htext : c ∈ text.toList := by
    rw [← tagged_chars sp.ranges [] text.toList, ← hplain]
    exact List.mem_map_of_mem htag
  rw [Text.allBlank, List.all_eq_false]
  exact ⟨c, htext, Bool.eq_false_iff.1 (isBlank_of_isWordStart hstart)⟩

/-- A splitter that finds no separator leaves the script as it is, trimmed. -/
theorem split_of_texts {sp : Splitter} (hs : sp.stripComments = false) {script : String}
    (htexts : ∀ e ∈ scan sp script.toList, e.isText) :
    sp.split script = (batchOf? script.toList .statement).toList := by
  have hpieces : scanPieces sp script.toList = ([], script.toList) := by
    have h := pieces_append htexts [] []
    rwa [List.append_nil, scan_chars] at h
  rw [split_eq_batches sp hs, hpieces, batches_nil]

theorem Splitter.IsUnit.split {grammar : List Lexeme → Prop} {unit rest : String}
    {s : BlockState} (hkept : s.containsBlock)
    (hend : ∀ ls, grammar ls → firstEnd {} (ls ++ [.semicolon]) = some (s, []))
    (hunit : Dialect.oracle.splitter.IsUnit grammar unit.toList)
    (hrest : Text.EndsLine rest.toList) :
    Dialect.oracle.splitter.split (unit ++ ";" ++ rest) =
      ⟨Text.trim (unit ++ ";"), .statement⟩ :: Dialect.oracle.splitter.split rest := by
  obtain ⟨ls, hls, hgrammar⟩ := hunit.lexemes
  have hfirst := firstEnd_of_filter (hend _ hgrammar)
  rw [← hls] at hfirst
  exact split_of_firstEnd hkept hunit.unslashed hfirst hrest

theorem Splitter.StartsInitialized.split {script : String}
    (hscript : Dialect.oracle.splitter.StartsInitialized script.toList) :
    Dialect.oracle.splitter.split script = [⟨Text.trim script, .statement⟩] := by
  obtain ⟨unit, more, hls, hunit, hmore⟩ := hscript.lexemes
  have hend := firstEnd_eq_none_of_filter (hls ▸ firstEnd_initializedPackage hunit hmore)
  have htexts := scan_unended keepsBlocks_oracle hscript.unslashed hend
  have hcreate : .word "CREATE" ∈ Dialect.oracle.splitter.lexemesFrom none [] script.toList := by
    have hmem : .word "CREATE" ∈ unit ++ .semicolon :: more := by
      cases hunit with
      | package hheading =>
          cases hheading with
          | create => exact List.mem_cons_self ..
    rw [← hls] at hmem
    exact (List.mem_filter.1 hmem).1
  have hblank := not_allBlank_of_word hcreate
  rw [split_of_texts rfl htexts, batchOf?_of_not_blank hblank]
  rfl

/-- What becomes of the units that hold routines. A package without an initialisation is one
batch, however deep its routines nest. Any other unit ends with the first subprogram in its
declarations, and an initialised package swallows the statements behind it. -/
theorem split_routines (unit rest : String) :
    (Dialect.oracle.splitter.IsUnit PackageUnit unit.toList → Text.EndsLine rest.toList →
      Dialect.oracle.splitter.split (unit ++ ";" ++ rest) =
        ⟨Text.trim (unit ++ ";"), .statement⟩ :: Dialect.oracle.splitter.split rest) ∧
    (Dialect.oracle.splitter.IsUnit LocalSubprogram unit.toList → Text.EndsLine rest.toList →
      Dialect.oracle.splitter.split (unit ++ ";" ++ rest) =
        ⟨Text.trim (unit ++ ";"), .statement⟩ :: Dialect.oracle.splitter.split rest) ∧
    (Dialect.oracle.splitter.StartsInitialized (unit ++ ";" ++ rest).toList →
      Dialect.oracle.splitter.split (unit ++ ";" ++ rest) =
        [⟨Text.trim (unit ++ ";" ++ rest), .statement⟩]) :=
  ⟨Splitter.IsUnit.split rfl fun _ => firstEnd_packageUnit,
    Splitter.IsUnit.split rfl fun _ h => firstEnd_programUnit (programUnit_of_localSubprogram h),
    Splitter.StartsInitialized.split⟩

theorem Body.append {ls more : List Lexeme} (hls : ∀ l ∈ ls, l.isOrdinary) (hmore : Body more) :
    Body (ls ++ more) := by
  induction ls with
  | nil => exact hmore
  | cons l ls ih =>
      obtain ⟨hl, hothers⟩ := List.forall_mem_cons.1 hls
      exact .ordinary hl (ih hothers)

/-- A package with a routine in a routine, the first lines of a procedure with a local one, and
a package that is initialised. -/
theorem split_routines_each :
    let package := "CREATE PACKAGE BODY k AS PROCEDURE q IS PROCEDURE r IS\nBEGIN\nNULL;\n" ++
      "END r;\nBEGIN\nr;\nEND q;\nEND k"
    let first := "CREATE PROCEDURE p IS PROCEDURE q IS\nBEGIN\nNULL;\nEND q"
    let initialized := "CREATE PACKAGE BODY k AS x NUMBER;\nBEGIN\nx := 1;\nEND k"
    (Dialect.oracle.splitter.IsUnit PackageUnit package.toList ∧
      Dialect.oracle.splitter.split (package ++ ";" ++ "\nCOMMIT") =
        [⟨package ++ ";", .statement⟩, ⟨"COMMIT", .statement⟩]) ∧
    (Dialect.oracle.splitter.IsUnit LocalSubprogram first.toList ∧
      Dialect.oracle.splitter.split (first ++ ";" ++ "\nBEGIN\nq;\nEND p;") =
        [⟨first ++ ";", .statement⟩, ⟨"BEGIN\nq;\nEND p;", .statement⟩]) ∧
    Dialect.oracle.splitter.StartsInitialized (initialized ++ ";" ++ "\nCOMMIT").toList ∧
      Dialect.oracle.splitter.split (initialized ++ ";" ++ "\nCOMMIT") =
        [⟨initialized ++ ";" ++ "\nCOMMIT", .statement⟩] := by
  intro package first initialized
  have hbreak : ∀ {s : String}, s.toList.head? = some '\n' → Text.EndsLine s.toList :=
    fun h c hc => Option.some.inj (hc.symm.trans h)
  have body : ∀ {ls : List Lexeme}, (∀ l ∈ ls, l.isOrdinary) → Body ls := fun {ls} h => by
    simpa using Body.append h .nil
  have block : ∀ name {inner more}, (Lexeme.word name).isOrdinary → Body inner → Body more →
      Body (.word "BEGIN" :: (inner ++ .word "END" :: .word name :: more)) :=
    fun _ _ _ hname h hmore => .nested .block h (.ordinary hname hmore)
  have hpackageUnit : Dialect.oracle.splitter.IsUnit PackageUnit package.toList := by
    have hinner : Body [.word "NULL", .semicolon] := body (by decide)
    have houter : Body [.word "R", .semicolon] := body (by decide)
    have hlast : Body [.semicolon] := body (by decide)
    have hdeclared : ∀ l ∈ [Lexeme.word "BODY", .word "K", .word "AS", .word "PROCEDURE",
        .word "Q", .word "IS", .word "PROCEDURE", .word "R", .word "IS"], l.isOrdinary := by decide
    have hitems := Body.append hdeclared (block "R" rfl hinner
      (.ordinary (l := .semicolon) rfl (block "Q" rfl houter hlast)))
    have hheading : PackageHeading (.word "CREATE" :: ([] ++ .word "PACKAGE" :: _)) :=
      .create (by decide) hitems
    have hlabel : ∀ w ∈ some "K", (Lexeme.word w).isOrdinary := by decide
    refine ⟨⟨(Dialect.oracle.splitter.lexemesFrom none [] (package.toList ++ [';'])).dropLast,
      by decide +kernel, ?_⟩, by decide +kernel⟩
    refine Eq.mp (congrArg PackageUnit ?_) (.package hheading hlabel)
    decide +kernel
  have hfirst : Dialect.oracle.splitter.IsUnit LocalSubprogram first.toList := by
    have hheading : Heading (.word "CREATE" :: ([] ++ .word "PROCEDURE" ::
        [.word "P", .word "IS"])) := .create (by decide) (by decide) (by decide)
    have hdecls : ∀ l ∈ [Lexeme.word "Q", .word "IS"], l.isDeclarative := by decide
    have hbody : Body [.word "NULL", .semicolon] := body (by decide)
    have hlabel : ∀ w ∈ some "Q", (Lexeme.word w).isOrdinary := by decide
    refine ⟨⟨(Dialect.oracle.splitter.lexemesFrom none [] (first.toList ++ [';'])).dropLast,
      by decide +kernel, ?_⟩, by decide +kernel⟩
    refine Eq.mp (congrArg LocalSubprogram ?_)
      (.declared hheading nofun (List.mem_cons_self ..) hdecls hbody hlabel)
    decide +kernel
  have hscript : Dialect.oracle.splitter.StartsInitialized
      (initialized ++ ";" ++ "\nCOMMIT").toList := by
    have hitems : Body [.word "BODY", .word "K", .word "AS", .word "X", .word "NUMBER",
        .semicolon] := body (by decide)
    have hheading : PackageHeading (.word "CREATE" :: ([] ++ .word "PACKAGE" :: _)) :=
      .create (by decide) hitems
    have hbody : Body [.word "X", .semicolon] := body (by decide)
    have hlabel : ∀ w ∈ some "K", (Lexeme.word w).isOrdinary := by decide
    refine ⟨⟨_, [.word "COMMIT"], ?_, .package hheading hbody hlabel,
      body (by decide)⟩, by decide +kernel⟩
    decide +kernel
  obtain ⟨hpackage, -, -⟩ := split_routines package "\nCOMMIT"
  obtain ⟨-, hlocal, -⟩ := split_routines first "\nBEGIN\nq;\nEND p;"
  obtain ⟨-, -, hinitialized⟩ := split_routines initialized "\nCOMMIT"
  exact ⟨⟨hpackageUnit, (hpackage hpackageUnit (hbreak rfl)).trans (by decide +kernel)⟩,
    ⟨hfirst, (hlocal hfirst (hbreak rfl)).trans (by decide +kernel)⟩,
    hscript, (hinitialized hscript).trans (by decide +kernel)⟩

/-- A procedure with a local one falls apart, and an initialised package takes in the statement
behind it. -/
theorem not_split_routines :
    Dialect.oracle.splitter.split ("CREATE PROCEDURE p IS PROCEDURE q IS\nBEGIN\nNULL;\n" ++
        "END q;\nBEGIN\nq;\nEND p;\nCOMMIT") ≠
      [⟨"CREATE PROCEDURE p IS PROCEDURE q IS\nBEGIN\nNULL;\nEND q;\nBEGIN\nq;\nEND p;",
        .statement⟩, ⟨"COMMIT", .statement⟩] ∧
    Dialect.oracle.splitter.split
        "CREATE PACKAGE BODY k AS x NUMBER;\nBEGIN\nx := 1;\nEND k;\nCOMMIT" ≠
      [⟨"CREATE PACKAGE BODY k AS x NUMBER;\nBEGIN\nx := 1;\nEND k;", .statement⟩,
        ⟨"COMMIT", .statement⟩] := by
  decide +kernel

end SchemaChange.Script
