import SchemaChange.Proofs.Script.Settled
import SchemaChange.Proofs.Script.Separated
import SchemaChange.Proofs.Sql.Unquoting

/-!
# Bare names in scripts

Where quotes are put only around names that need them, a bare name holds small letters, digits,
underscores and dollars. Nothing in it begins a range but two dollars side by side, which a script
takes for the quotes of a text. The semicolon behind a bare name is read as one only if these pairs
open and close in turn.
-/
namespace SchemaChange

open Script

namespace Script

/-- A small letter, an underscore, a digit or a dollar. -/
def IsBare (c : Char) : Prop :=
  97 ≤ c.toNat ∧ c.toNat ≤ 122 ∨ c.toNat = 95 ∨ 48 ≤ c.toNat ∧ c.toNat ≤ 57 ∨ c = '$'

instance : DecidablePred IsBare := fun _ => inferInstanceAs (Decidable (_ ∨ _))

/-- The number of pairs of dollars in a text, counted from the left. -/
def dollarPairs : List Char → Nat
  | '$' :: '$' :: cs => dollarPairs cs + 1
  | _ :: cs => dollarPairs cs
  | [] => 0

/-- The ranges that are open outside and inside of a text between dollars. -/
def dollarStack (inside : Bool) : List Range := if inside then [dollarQuoted] else []

section Chars

variable {c : Char}

/-- A dollar is the only one of these characters that can begin a range. -/
theorem isQuiet_of_isBare (h : IsBare c) (hdollar : c ≠ '$') : isQuiet c = true := by
  have hfar : ['\x27', '"', '\x60', ']', '[', '-', '/', '#', ';', '\n'].all
      (fun d => !decide (IsBare d)) = true := by decide
  have hne : ∀ d ∈ ['\x27', '"', '\x60', ']', '[', '-', '/', '#', ';', '\n'], c ≠ d := by
    rintro d hd rfl
    have hd := List.all_eq_true.1 hfar c hd
    rw [decide_eq_true h] at hd
    cases hd
  simpa [isQuiet, isMark, isQuote, hdollar, and_assoc] using hne

theorem isBlank_of_isBare (h : IsBare c) : Text.isBlank c = false := by
  rcases h with h | h | h | rfl
  case inr.inr.inr => decide
  all_goals
    simp only [Text.isBlank, Bool.or_eq_false_iff, Bool.and_eq_false_iff, beq_eq_false_iff_ne,
      decide_eq_false_iff_not]
    omega

/-- A name that needs no quotes is made of such characters. -/
theorem bare_of_isSimpleName {cs : List Char} (h : isSimpleName cs = true) :
    ∀ c ∈ cs, IsBare c := by
  have hletter : ∀ c : Char, ('a' ≤ c && c ≤ 'z') || c == '_' → IsBare c := by
    intro c hc
    simp only [Bool.or_eq_true, Bool.and_eq_true, decide_eq_true_eq, beq_iff_eq] at hc
    rcases hc with hc | rfl
    · exact .inl hc
    · exact .inr (.inl rfl)
  cases cs with
  | nil => exact nofun
  | cons first cs =>
      obtain ⟨hfirst, hcs⟩ := Bool.and_eq_true_iff.1 h
      refine List.forall_mem_cons.2 ⟨hletter first hfirst, fun c hc => ?_⟩
      have hc := List.all_eq_true.1 hcs c hc
      simp only [Bool.or_eq_true, beq_iff_eq] at hc
      rcases hc with (hc | hc) | hc
      · exact hletter c (by simpa using hc)
      · simp only [Bool.and_eq_true, decide_eq_true_eq] at hc
        exact .inr (.inr (.inl hc))
      · exact .inr (.inr (.inr hc))

end Chars

section Dollars

variable {cs rest : List Char}

/-- Two dollars open a text or close it. -/
theorem move_dollars (inside : Bool) (cs : List Char) :
    move Dialect.postgres.splitter.ranges (dollarStack inside) ('$' :: '$' :: cs) =
      ⟨2, some dollarQuoted, dollarStack !inside⟩ := by
  cases inside <;> rfl

/-- All other characters of a bare name are copied. -/
theorem move_bare {c : Char} (hc : IsBare c) (hlone : c = '$' → cs.head? ≠ some '$')
    (inside : Bool) :
    move Dialect.postgres.splitter.ranges (dollarStack inside) (c :: cs) =
      ⟨1, (dollarStack inside).head?, dollarStack inside⟩ := by
  have hpair : ['$', '$'].isPrefixOf (c :: cs) = false := by
    rw [Bool.eq_false_iff, Ne, List.isPrefixOf_iff_prefix, List.cons_prefix_cons]
    rintro ⟨rfl, hcs⟩
    cases cs with
    | nil => cases List.prefix_nil.1 hcs
    | cons d cs => exact hlone rfl (by rw [List.head?_cons, (List.cons_prefix_cons.1 hcs).1])
  cases inside with
  | true =>
      rw [dollarStack, if_pos rfl, move, dollarQuoted, moveInside, if_neg]
      · rfl
      · rw [Code.of, hpair]
        exact Bool.false_ne_true
  | false =>
      rw [dollarStack, if_neg Bool.false_ne_true]
      by_cases hdollar : c = '$'
      · subst hdollar
        refine move_of_no_opening fun r hr => ?_
        simp only [Dialect.splitter, List.mem_cons, List.not_mem_nil, or_false] at hr
        rcases hr with rfl | rfl | rfl | rfl | rfl
        · rfl
        · rfl
        · exact hpair
        · rfl
        · rfl
      · exact move_plain_char .postgres (isQuiet_eq_true (isQuiet_of_isBare hc hdollar)).1 cs

/-- Behind a bare name a text between dollars is open if the number of pairs is odd. -/
theorem exists_tagged_bare (hcs : ∀ c ∈ cs, IsBare c) (hrest : rest.head? ≠ some '$')
    (inside : Bool) :
    ∃ tags, tags.map Prod.fst = cs ∧
      tagged Dialect.postgres.splitter.ranges (dollarStack inside) (cs ++ rest) =
        tags ++ tagged Dialect.postgres.splitter.ranges
          (dollarStack (inside ^^ (dollarPairs cs % 2 == 1))) rest := by
  fun_induction dollarPairs cs generalizing inside with
  | case1 cs ih =>
      obtain ⟨tags, hchars, htags⟩ :=
        ih (fun c hc => hcs c (List.mem_cons_of_mem _ (List.mem_cons_of_mem _ hc))) (!inside)
      refine ⟨('$', some dollarQuoted) :: ('$', some dollarQuoted) :: tags, by simp [hchars], ?_⟩
      have hparity : (!inside ^^ (dollarPairs cs % 2 == 1)) =
          (inside ^^ ((dollarPairs cs + 1) % 2 == 1)) := by
        rcases Nat.mod_two_eq_zero_or_one (dollarPairs cs) with h | h <;>
          simp [Nat.add_mod, h]
      rw [List.cons_append, List.cons_append, tagged_of_ne_nil _ _ (List.cons_ne_nil _ _),
        move_dollars, ← hparity]
      exact congrArg _ htags
  | case2 c cs hpair ih =>
      obtain ⟨tags, hchars, htags⟩ := ih (fun c hc => hcs c (List.mem_cons_of_mem _ hc)) inside
      refine ⟨(c, (dollarStack inside).head?) :: tags, by simp [hchars], ?_⟩
      have hlone : c = '$' → (cs ++ rest).head? ≠ some '$' := by
        rintro rfl
        cases cs with
        | nil => exact hrest
        | cons d cs =>
            rw [List.cons_append, List.head?_cons]
            exact fun h => hpair cs rfl (by rw [Option.some.inj h])
      rw [List.cons_append, tagged_of_ne_nil _ _ (List.cons_ne_nil _ _),
        move_bare (hcs c (List.mem_cons_self ..)) hlone]
      exact congrArg _ htags
  | case3 => exact ⟨[], rfl, by simp⟩

/-- No semicolon stands among the characters of a bare name. -/
theorem semicolon_not_mem {tags : List (Char × Option Range)} (hchars : tags.map Prod.fst = cs)
    (hcs : ∀ c ∈ cs, IsBare c) (range : Option Range) : (';', range) ∉ tags := fun hmem =>
  absurd (hcs ';' (hchars ▸ List.mem_map.2 ⟨_, hmem, rfl⟩)) (by decide)

/-- A bare name in which the pairs open and close in turn is read to its end. -/
theorem undivided_bare (hcs : ∀ c ∈ cs, IsBare c) (heven : dollarPairs cs % 2 = 0)
    (hrest : rest.head? ≠ some '$') : Undivided .postgres cs rest := by
  obtain ⟨tags, hchars, htags⟩ := exists_tagged_bare hcs hrest false
  rw [heven] at htags
  exact ⟨tags, outside_of_not_mem (semicolon_not_mem hchars hcs none), htags⟩

/-- Nothing is trimmed from a bare name, with or without the semicolon. -/
theorem trimmed_bare (hcs : ∀ c ∈ cs, IsBare c ∨ c = ';') : Text.trimmed cs = cs := by
  have hblank : ∀ c ∈ cs, Text.isBlank c = false := by
    intro c hc
    rcases hcs c hc with h | rfl
    · exact isBlank_of_isBare h
    · decide
  exact Text.trimmed_eq_self (fun c hc => hblank c (List.mem_of_head? hc))
    fun c hc => hblank c (List.mem_of_getLast? hc)

/-- A text before a semicolon is a batch if the semicolon ends it. -/
theorem automatonBatches_ended {d : Dialect}
    (hreads : ∀ rest, (∀ c, rest.head? = some c → c = ';') → Undivided d cs rest)
    (hne : cs ≠ []) (htrim : Text.trimmed cs = cs) :
    automatonBatches d.splitter.ranges (cs ++ [';']) = [⟨String.ofList cs, .statement⟩] := by
  have hnil : ∀ others ∈ [[]], ∀ rest, (∀ c, rest.head? = some c → c = ';') →
      Undivided d others rest := fun others hothers rest _ => by
    rw [List.mem_singleton.1 hothers]
    exact readsAs_nil _ d rest
  have hpieces := splitOn_tagged hreads hnil
  rw [List.flatMap_singleton] at hpieces
  rw [automatonBatches, hpieces, List.filterMap_cons, batchOf?_of_trimmed htrim hne]
  rfl

/-- A bare name in which a pair is left open takes the semicolon in. -/
theorem automatonBatches_bare (hcs : ∀ c ∈ cs, IsBare c) (hodd : dollarPairs cs % 2 = 1) :
    automatonBatches Dialect.postgres.splitter.ranges (cs ++ [';']) =
      [⟨String.ofList (cs ++ [';']), .statement⟩] := by
  have hhead : [';'].head? ≠ some '$' := by decide
  have hlast : tagged Dialect.postgres.splitter.ranges [dollarQuoted] [';'] =
      [(';', some dollarQuoted)] := by decide +kernel
  obtain ⟨tags, hchars, htags⟩ := exists_tagged_bare hcs hhead false
  rw [hodd] at htags
  have hall : tagged Dialect.postgres.splitter.ranges [] (cs ++ [';']) =
      tags ++ [(';', some dollarQuoted)] := hlast ▸ htags
  have hsemi : (';', none) ∉ tagged Dialect.postgres.splitter.ranges [] (cs ++ [';']) := by
    rw [hall, List.mem_append, not_or]
    exact ⟨semicolon_not_mem hchars hcs none, by simp⟩
  have htrim : Text.trimmed (cs ++ [';']) = cs ++ [';'] := trimmed_bare fun c hc =>
    (List.mem_append.1 hc).imp (hcs c) List.mem_singleton.1
  rw [automatonBatches_of_not_mem hsemi, batchOf?_of_trimmed htrim (by simp)]
  rfl

end Dollars

end Script

section Split

variable {mode : Mode} {o : Options}

/-- Unless nothing at all is quoted, only simple names need no quotes. -/
theorem isSimpleName_of_needsQuoting {q : Quoter} (hpolicy : q.policy ≠ .never) {name : String}
    (h : q.needsQuoting name = false) : isSimpleName name.toList = true := by
  rw [Quoter.needsQuoting] at h
  split at h
  · cases h
  · exact absurd ‹_› hpolicy
  · simpa using (Bool.or_eq_false_iff.1 h).1

theorem policy_ne_never (hquotes : o.quoteIdentifiers ≠ some false) :
    (Profile.of .postgres mode o).quoter.policy ≠ .never := by
  have hpolicy : (Profile.of .postgres mode o).quoter.policy =
      o.policy (if o.forceQuote = some false then .whenNeeded else .always) := rfl
  rw [hpolicy, Options.policy]
  split
  · decide
  · exact absurd ‹_› hquotes
  · split <;> decide

/-- Unless nothing at all is quoted, a written name of Postgres is one statement before its
semicolon, but for a bare one with an odd number of pairs of dollars: there the semicolon belongs to
the statement. -/
theorem split_quote_semicolon (hquotes : o.quoteIdentifiers ≠ some false) {name : String}
    (hne : name ≠ "") (hname : (Profile.of .postgres mode o).quoter.isQuoted name = false) :
    let q := (Profile.of .postgres mode o).quoter
    Dialect.postgres.splitter.split (q.quote name ++ ";") =
      [⟨if q.needsQuoting name = false ∧ dollarPairs name.toList % 2 = 1 then q.quote name ++ ";"
        else q.quote name, .statement⟩] := by
  intro q
  have hempty : name.isEmpty = false := by simpa using hne
  have hname : q.isQuoted name = false := hname
  have hsemicolon : ";".toList = [';'] := rfl
  rw [Dialect.postgres.splitter.split_of_semicolon rfl rfl (withinLines_splitter .postgres),
    String.toList_append, hsemicolon]
  cases hneeds : q.needsQuoting name with
  | true =>
      have hwrap : q.quote name = String.ofList (q.wrap name.toList) := by
        rw [Quoter.quote, hempty, hname, hneeds]
        rfl
      have hchars : q.wrap name.toList = _ :=
        (usesQuotes_marks .postgres mode o).wrap_eq name.toList
      have hquotes : Quotes .postgres '"' := fun rest => rfl
      have hstanding := standing_quoted hquotes rfl (doubled_replaceAll '"' name.toList)
      rw [if_neg (by simp), hwrap, String.toList_ofList, hchars]
      refine automatonBatches_ended hstanding.severable.reads (List.cons_ne_nil _ _) ?_
      refine Text.trimmed_eq_self (fun c hc => ?_) fun c hc => ?_
      · cases hc
        decide
      · rw [List.getLast?_cons, List.getLast?_concat] at hc
        cases hc
        decide
  | false =>
      have hbare : q.quote name = name := by
        rw [Quoter.quote, hempty, hname, hneeds]
        rfl
      have hcs := bare_of_isSimpleName
        (isSimpleName_of_needsQuoting (policy_ne_never hquotes) hneeds)
      rw [hbare]
      rcases Nat.mod_two_eq_zero_or_one (dollarPairs name.toList) with heven | hodd
      · have hreads : ∀ rest, (∀ c, rest.head? = some c → c = ';') →
            Undivided .postgres name.toList rest := fun rest hrest =>
          undivided_bare hcs heven fun h => absurd (hrest '$' h) (by decide)
        rw [if_neg (by simp [heven]), automatonBatches_ended hreads (by simpa using hne)
          (trimmed_bare fun c hc => .inl (hcs c hc)), String.ofList_toList]
      · rw [if_pos ⟨rfl, hodd⟩, automatonBatches_bare hcs hodd, String.ofList_append,
          String.ofList_toList]

end Split

/-- Two pairs of dollars in a bare name, and a pair in a name between quotes. -/
theorem split_quote_semicolon_dollars :
    let q := (Profile.of .postgres .strict { forceQuote := some false }).quoter
    q.isQuoted "a$$b$$" = false ∧ q.isQuoted "A$$" = false ∧
      Dialect.postgres.splitter.split (q.quote "a$$b$$" ++ ";") = [⟨"a$$b$$", .statement⟩] ∧
      Dialect.postgres.splitter.split (q.quote "A$$" ++ ";") = [⟨"\"A$$\"", .statement⟩] := by
  intro q
  have hbare := @split_quote_semicolon .strict { forceQuote := some false } (by decide) "a$$b$$"
    (by decide) (by decide +kernel)
  have hwrapped := @split_quote_semicolon .strict { forceQuote := some false } (by decide) "A$$"
    (by decide) (by decide +kernel)
  refine ⟨by decide +kernel, by decide +kernel, hbare.trans ?_, hwrapped.trans ?_⟩
  · decide +kernel
  · decide +kernel

/-- One pair of dollars in a bare name takes the semicolon in. -/
theorem not_split_quote_semicolon :
    let q := (Profile.of .postgres .strict { forceQuote := some false }).quoter
    "a$$b" ≠ "" ∧ q.isQuoted "a$$b" = false ∧ q.quote "a$$b" = "a$$b" ∧
      Dialect.postgres.splitter.split (q.quote "a$$b" ++ ";") = [⟨"a$$b;", .statement⟩] ∧
      Dialect.postgres.splitter.split (q.quote "a$$b" ++ ";") ≠
        [⟨q.quote "a$$b", .statement⟩] := by
  intro q
  have hquote : q.quote "a$$b" = "a$$b" := by decide +kernel
  have hsplit : Dialect.postgres.splitter.split (q.quote "a$$b" ++ ";") =
      [⟨"a$$b;", .statement⟩] := by
    have hchars : (q.quote "a$$b" ++ ";").toList = "a$$b".toList ++ [';'] := by
      rw [hquote, String.toList_append]
      rfl
    rw [Dialect.postgres.splitter.split_of_semicolon rfl rfl (withinLines_splitter .postgres),
      hchars, automatonBatches_bare (bare_of_isSimpleName (by decide +kernel)) (by decide +kernel)]
    rfl
  refine ⟨by decide, by decide +kernel, hquote, hsplit, ?_⟩
  rw [hsplit, hquote]
  decide

end SchemaChange
