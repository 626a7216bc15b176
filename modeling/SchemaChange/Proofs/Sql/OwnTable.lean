import SchemaChange.Proofs.Sql.NewTable
import SchemaChange.Proofs.Sql.Unquoting

/-!
# Foreign keys of a table to itself

Two tables are written alike if their names are and their schemas are, where no schema, an empty
one and the default one all are the default one. The check of a foreign key compares the schemas as
they are given, so a key to its own table passes if the schema is left out on one side.
-/
namespace SchemaChange

namespace Dialect

/-- The text is one name in front of a dot: an identifier in quotes, or bare characters. -/
def IsUnit (d : Dialect) (text : List Char) : Prop :=
  d.IsIdentifier text ∨ '.' ∉ text ∧ text.head? ≠ some d.openingQuote

end Dialect

section Units

variable {d : Dialect}

theorem quote_ne_dot (d : Dialect) : '.' ≠ d.openingQuote ∧ '.' ≠ d.closingQuote := by
  cases d <;> decide

/-- An identifier begins with the opening quote. -/
theorem Dialect.IsIdentifier.head {text : List Char} (h : d.IsIdentifier text) :
    text.head? = some d.openingQuote := by
  have halone := h [] (by simp)
  rw [List.append_nil] at halone
  cases text with
  | nil => cases halone
  | cons c cs =>
      rw [Dialect.identifierLength?] at halone
      split at halone
      · exact congrArg some ‹_›
      · cases halone

/-- Behind a name stands a dot or nothing. -/
def Parted (rest : List Char) : Prop := rest = [] ∨ ∃ behind, rest = '.' :: behind

theorem Parted.head_ne {rest : List Char} (h : Parted rest) {c : Char} (hc : '.' ≠ c) :
    rest.head? ≠ some c := by
  rcases h with rfl | ⟨behind, rfl⟩
  · exact nofun
  · exact fun h => hc (Option.some.inj h)

/-- Bare characters end with the first dot. -/
theorem takeWhile_bare {text rest : List Char} (htext : '.' ∉ text) (hrest : Parted rest) :
    (text ++ rest).takeWhile (· != '.') = text := by
  have hall : ∀ c ∈ text, (c != '.') = true := fun c hc =>
    bne_iff_ne.2 fun h => htext (h ▸ hc)
  rw [List.takeWhile_append_of_pos hall]
  rcases hrest with rfl | ⟨behind, rfl⟩ <;> simp

/-- The first name of a text is determined by the text. -/
theorem Dialect.IsUnit.cancel {text text' rest rest' : List Char} (h : d.IsUnit text)
    (h' : d.IsUnit text') (hrest : Parted rest) (hrest' : Parted rest')
    (heq : text ++ rest = text' ++ rest') : text = text' ∧ rest = rest' := by
  have hdots := quote_ne_dot d
  -- an identifier and bare characters begin differently
  have hmixed : ∀ {a b r s : List Char}, d.IsIdentifier a → b.head? ≠ some d.openingQuote →
      Parted s → a ++ r ≠ b ++ s := by
    intro a b r s ha hb hs heq
    have hhead := congrArg List.head? heq
    rw [List.head?_append, ha.head, Option.some_or, List.head?_append] at hhead
    cases hb' : b.head? with
    | none => exact hs.head_ne hdots.1 (by rw [hhead, hb', Option.none_or])
    | some c =>
        rw [hb', Option.some_or] at hhead
        exact hb (hb'.trans hhead.symm)
  have htext : text = text' := by
    rcases h with h | ⟨hdot, hhead⟩ <;> rcases h' with h' | ⟨hdot', hhead'⟩
    · have hlength := h rest (hrest.head_ne hdots.2)
      rw [heq, h' rest' (hrest'.head_ne hdots.2)] at hlength
      exact (List.append_inj heq (Option.some.inj hlength).symm).1
    · exact absurd heq (hmixed h hhead' hrest')
    · exact absurd heq.symm (hmixed h' hhead hrest)
    · rw [← takeWhile_bare hdot hrest, heq, takeWhile_bare hdot' hrest']
  exact ⟨htext, List.append_cancel_left (htext ▸ heq)⟩

end Units

/-- Every name of an object is written so that it can be told from what stands behind it. -/
def Quoter.Legible (q : Quoter) (n : ObjectName) : Prop :=
  ∀ name ∈ n.name :: (q.schemaOf? n.schema).toList, q.dialect.IsUnit (q.quote name).toList

section Objects

variable {q : Quoter} {a b : ObjectName}

theorem toList_quoteObject (q : Quoter) (n : ObjectName) : (q.quoteObject n).toList =
    match q.schemaOf? n.schema with
    | some schema => (q.quote schema).toList ++ '.' :: (q.quote n.name).toList
    | none => (q.quote n.name).toList := by
  rw [Quoter.quoteObject, Quoter.object, Sql.toList_write]
  cases q.schemaOf? n.schema with
  | none => simp [Sql.chars, Piece.write]
  | some schema => simp [Sql.chars, Piece.write]

/-- Objects are written alike if their names are and their schemas are. -/
theorem quoteObject_eq_iff (ha : q.Legible a) (hb : q.Legible b) :
    q.quoteObject a = q.quoteObject b ↔ q.quote a.name = q.quote b.name ∧
      (q.schemaOf? a.schema).map q.quote = (q.schemaOf? b.schema).map q.quote := by
  have hdot : ∀ text : List Char, Parted ('.' :: text) := fun text => .inr ⟨text, rfl⟩
  -- a name without a schema is not written like one behind a schema
  have hmixed : ∀ {x s y : String}, q.dialect.IsUnit (q.quote x).toList →
      q.dialect.IsUnit (q.quote s).toList →
      (q.quote x).toList ≠ (q.quote s).toList ++ '.' :: (q.quote y).toList := by
    intro x s y hx hs h
    rw [← List.append_nil (q.quote x).toList] at h
    exact List.cons_ne_nil _ _ (hx.cancel hs (.inl rfl) (hdot _) h).2.symm
  have hname := ha _ (List.mem_cons_self ..)
  have hname' := hb _ (List.mem_cons_self ..)
  rw [← String.toList_inj, toList_quoteObject, toList_quoteObject]
  rw [Quoter.Legible] at ha hb
  cases hschema : q.schemaOf? a.schema <;> cases hschema' : q.schemaOf? b.schema <;>
    rw [hschema] at ha <;> rw [hschema'] at hb
  case none.none => simp [String.toList_inj]
  case none.some schema' =>
    exact iff_of_false (hmixed hname (hb schema' (by simp))) fun h => by cases h.2
  case some.none schema =>
    exact iff_of_false (hmixed hname' (ha schema (by simp))).symm fun h => by cases h.2
  case some.some schema schema' =>
    constructor
    · intro h
      obtain ⟨hs, hn⟩ := (ha schema (by simp)).cancel (hb schema' (by simp)) (hdot _) (hdot _) h
      exact ⟨String.toList_injective (List.cons.inj hn).2,
        congrArg some (String.toList_injective hs)⟩
    · rintro ⟨hn, hs⟩
      dsimp only
      rw [hn, Option.some.inj hs]

/-- The schemas that stand for the default one. -/
def Quoter.defaultSchemas (q : Quoter) : List (Option String) :=
  [none, some "", q.defaultSchema]

/-- A schema is left to the default or is the one in effect. -/
theorem schemaOf?_cases (q : Quoter) (schema : Option String) :
    q.schemaOf? schema = q.defaultSchema ∧ schema ∈ q.defaultSchemas ∨
      q.schemaOf? schema = schema := by
  rw [Quoter.schemaOf?, Quoter.defaultSchemas]
  cases schema with
  | none => exact .inl ⟨rfl, .head _⟩
  | some schema =>
      by_cases hempty : schema = ""
      · subst hempty
        exact .inl ⟨rfl, .tail _ (.head _)⟩
      · exact .inr (by simp [hempty])

theorem schemaOf?_eq_default_iff {schema : Option String} :
    q.schemaOf? schema = q.defaultSchema ↔ schema ∈ q.defaultSchemas := by
  constructor
  · intro h
    rcases schemaOf?_cases q schema with ⟨-, hmem⟩ | hsame
    · exact hmem
    · rw [← hsame, h]
      exact .tail _ (.tail _ (.head _))
  · intro h
    simp only [Quoter.defaultSchemas, List.mem_cons, List.not_mem_nil, or_false] at h
    rcases h with rfl | rfl | rfl
    · rfl
    · rfl
    · rcases schemaOf?_cases q q.defaultSchema with ⟨h, -⟩ | h <;> exact h

/-- Two different schemas are the same in effect only if both stand for the default one. -/
theorem schemaOf?_eq_iff {x y : Option String} (hne : x ≠ y) :
    q.schemaOf? x = q.schemaOf? y ↔ x ∈ q.defaultSchemas ∧ y ∈ q.defaultSchemas := by
  rw [← schemaOf?_eq_default_iff, ← schemaOf?_eq_default_iff]
  constructor
  · intro h
    rcases schemaOf?_cases q x with ⟨hx, -⟩ | hx <;> rcases schemaOf?_cases q y with ⟨hy, -⟩ | hy
    · exact ⟨hx, hy⟩
    · exact ⟨hx, h ▸ hx⟩
    · exact ⟨h.trans hy, hy⟩
    · exact absurd (hx.symm.trans (h.trans hy)) hne
  · rintro ⟨hx, hy⟩
    rw [hx, hy]

end Objects

section Profile

variable {d : Dialect} {mode : Mode} {o : Options}

/-- The default schema of a dialect is a name without quotes. -/
theorem plain_defaultSchema {schema : String}
    (h : (Profile.of d mode o).quoter.defaultSchema = some schema) :
    schema ≠ "" ∧ (Profile.of d mode o).quoter.isQuoted schema = false := by
  have hquoted : (Profile.of d mode o).quoter.isQuoted =
      (Profile.of d .strict {}).quoter.isQuoted := by cases d <;> rfl
  have hschema : (Profile.of d mode o).quoter.defaultSchema =
      (Profile.of d .strict {}).quoter.defaultSchema := by cases d <;> rfl
  have hall : ∀ schema ∈ (Profile.of d .strict {}).quoter.defaultSchema,
      schema ≠ "" ∧ (Profile.of d .strict {}).quoter.isQuoted schema = false := by
    cases d <;> decide +kernel
  rw [hquoted]
  exact hall schema (hschema ▸ h)

/-- The schema in effect of an object without quotes is a name without quotes. -/
theorem plain_schemaOf? {n : ObjectName} (hn : Unquoted (Profile.of d mode o).quoter n.names)
    {schema : String} (h : (Profile.of d mode o).quoter.schemaOf? n.schema = some schema) :
    schema ≠ "" ∧ (Profile.of d mode o).quoter.isQuoted schema = false := by
  have hschema := h
  rw [Quoter.schemaOf?, Option.or_eq_some_iff] at h
  rcases h with hown | ⟨-, hdefault⟩
  · obtain ⟨hown, hne⟩ := Option.filter_eq_some_iff.1 hown
    refine ⟨?_, hn schema (List.mem_cons_of_mem _ (Option.mem_toList.2 hown))⟩
    rintro rfl
    cases hne
  · exact plain_defaultSchema hdefault

/-- Under a policy that quotes every name, objects without quotes of their own are legible. -/
theorem legible_of_unquoted (hpolicy : (Profile.of d mode o).quoter.policy = .always)
    {n : ObjectName} (hname : n.name ≠ "")
    (hn : Unquoted (Profile.of d mode o).quoter n.names) :
    (Profile.of d mode o).quoter.Legible n := by
  have hq := usesQuotes_profile hpolicy
  have hdialect : (Profile.of d mode o).quoter.dialect = d := by cases d <;> rfl
  have hunit : ∀ name, name ≠ "" → (Profile.of d mode o).quoter.isQuoted name = false →
      d.IsUnit ((Profile.of d mode o).quoter.quote name).toList := fun name hne hname => by
    rw [hq.quote_of_unquoted hne hname]
    exact .inl (hq.isIdentifier_wrap _)
  rw [Quoter.Legible, hdialect]
  intro name hmem
  rcases List.mem_cons.1 hmem with rfl | hmem
  · exact hunit _ hname (hn _ (.head _))
  · obtain ⟨hne, hplain⟩ := plain_schemaOf? hn (Option.mem_toList.1 hmem)
    exact hunit name hne hplain

/-- Objects without quotes are written alike if they are the same. -/
theorem quoteObject_eq_iff_sameObject {a b : ObjectName}
    (ha : (Profile.of d mode o).quoter.Legible a) (hb : (Profile.of d mode o).quoter.Legible b)
    (ha' : Unquoted (Profile.of d mode o).quoter a.names)
    (hb' : Unquoted (Profile.of d mode o).quoter b.names) :
    (Profile.of d mode o).quoter.quoteObject a = (Profile.of d mode o).quoter.quoteObject b ↔
      (Profile.of d mode o).quoter.SameObject a b := by
  have hmarks := usesQuotes_marks d mode o
  refine ⟨fun h => ?_, fun h => h.quoteObject⟩
  obtain ⟨hname, hschema⟩ := (quoteObject_eq_iff ha hb).1 h
  refine ⟨quote_injective hmarks (ha' _ (.head _)) (hb' _ (.head _)) hname, ?_⟩
  cases hx : (Profile.of d mode o).quoter.schemaOf? a.schema <;>
    cases hy : (Profile.of d mode o).quoter.schemaOf? b.schema <;> rw [hx, hy] at hschema
  case none.some => cases hschema
  case some.none => cases hschema
  case some.some x y =>
    exact congrArg some (quote_injective hmarks (plain_schemaOf? ha' hx).2
      (plain_schemaOf? hb' hy).2 (Option.some.inj hschema))

end Profile

/-- The tables of a valid foreign key are not given alike. -/
theorem foreignTable_ne_primaryTable {k : ForeignKey} (hcheck : k.check = .ok ()) :
    k.foreignTable ≠ k.primaryTable := by
  obtain ⟨-, hcheck⟩ := check_bind hcheck
  obtain ⟨hrequire, -⟩ := check_bind hcheck
  intro h
  rw [require, h, bne_self_eq_false] at hrequire
  cases hrequire

/-- A valid foreign key joins a table to itself in writing if the names are written alike and the
schemas in effect are. Without quotes of their own, the names are the same then, and of the schemas
one is left out or empty and the other is so as well, in another way, or is the default one. -/
theorem ownTable_iff {d : Dialect} {mode : Mode} {o : Options} {k : ForeignKey}
    (hcheck : k.check = .ok ()) (hforeign : (Profile.of d mode o).quoter.Legible k.foreignTable)
    (hprimary : (Profile.of d mode o).quoter.Legible k.primaryTable) :
    let q := (Profile.of d mode o).quoter
    (q.quoteObject k.foreignTable = q.quoteObject k.primaryTable ↔
      q.quote k.foreignTable.name = q.quote k.primaryTable.name ∧
        (q.schemaOf? k.foreignTable.schema).map q.quote =
          (q.schemaOf? k.primaryTable.schema).map q.quote) ∧
    (Unquoted q (k.foreignTable.names ++ k.primaryTable.names) →
      (q.quoteObject k.foreignTable = q.quoteObject k.primaryTable ↔
        k.foreignTable.name = k.primaryTable.name ∧
        k.foreignTable.schema ≠ k.primaryTable.schema ∧
        k.foreignTable.schema ∈ q.defaultSchemas ∧ k.primaryTable.schema ∈ q.defaultSchemas)) := by
  intro q
  refine ⟨quoteObject_eq_iff hforeign hprimary, fun hunquoted => ?_⟩
  obtain ⟨hforeign', hprimary'⟩ := List.forall_mem_append.1 hunquoted
  rw [quoteObject_eq_iff_sameObject hforeign hprimary hforeign' hprimary']
  have hne := foreignTable_ne_primaryTable hcheck
  constructor
  · rintro ⟨hname, hschema⟩
    have hdiffer : k.foreignTable.schema ≠ k.primaryTable.schema := fun h =>
      hne (congrArg₂ ObjectName.mk hname h)
    exact ⟨hname, hdiffer, (schemaOf?_eq_iff hdiffer).1 hschema⟩
  · rintro ⟨hname, hdiffer, hdefaults⟩
    exact ⟨hname, (schemaOf?_eq_iff hdiffer).2 hdefaults⟩

/-- A key that leaves the schema out on one side and gives the default one on the other. -/
theorem ownTable_iff_default :
    let q := (Profile.of .sqlServer .strict {}).quoter
    let k : ForeignKey :=
      { foreignTable := ⟨"orders", none⟩, foreignColumns := ["parent"],
        primaryTable := ⟨"orders", some "dbo"⟩, primaryColumns := ["id"] }
    k.check = .ok () ∧ q.Legible k.foreignTable ∧ q.Legible k.primaryTable ∧
      Unquoted q (k.foreignTable.names ++ k.primaryTable.names) ∧
      q.quoteObject k.foreignTable = q.quoteObject k.primaryTable := by
  intro q k
  have hcheck : k.check = .ok () := by decide +kernel
  have hunquoted : Unquoted q (k.foreignTable.names ++ k.primaryTable.names) := by decide +kernel
  obtain ⟨hforeign, hprimary⟩ := List.forall_mem_append.1 hunquoted
  have hforeign : q.Legible k.foreignTable := legible_of_unquoted rfl (by decide) hforeign
  have hprimary : q.Legible k.primaryTable := legible_of_unquoted rfl (by decide) hprimary
  refine ⟨hcheck, hforeign, hprimary, hunquoted, ?_⟩
  exact ((ownTable_iff hcheck hforeign hprimary).2 hunquoted).2 (by decide +kernel)

/-- Keys to their own table that are valid: with an empty schema, and with the default one. -/
theorem not_ownTable_refused :
    let key (schema : String) : ForeignKey :=
      { name := some "FK", foreignTable := ⟨"t", none⟩, foreignColumns := ["parent"],
        primaryTable := ⟨"t", some schema⟩, primaryColumns := ["id"] }
    let hana := Profile.of .hana .strict {}
    let postgres := Profile.of .postgres .strict {}
    (key "").check = .ok () ∧ (key "public").check = .ok () ∧
      hana.quoter.quoteObject (key "").foreignTable = "\"t\"" ∧
      hana.quoter.quoteObject (key "").primaryTable = "\"t\"" ∧
      hana.statementTexts (.createForeignKey (key "")) = .ok
        ["ALTER TABLE \"t\" ADD CONSTRAINT \"FK\" FOREIGN KEY (\"parent\") " ++
          "REFERENCES \"t\" (\"id\")"] ∧
      postgres.quoter.quoteObject (key "public").foreignTable = "\"public\".\"t\"" ∧
      postgres.quoter.quoteObject (key "public").primaryTable = "\"public\".\"t\"" := by
  decide +kernel

end SchemaChange
