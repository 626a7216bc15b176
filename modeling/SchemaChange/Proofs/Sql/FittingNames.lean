import SchemaChange.Proofs.Naming.Shortening
import SchemaChange.Proofs.Sql.CheckedNames

/-!
# Names that fit a dialect

A name that a change leaves out is derived and shortened to what the dialect accepts. So every name
in a statement is one that the change gives, or it fits; this holds as well of the names that stand
in a text of the statement.
-/
namespace SchemaChange

open Sql

namespace Profile

/-- A name of at most as many bytes as the dialect accepts. -/
def FitsName (p : Profile) (n : String) : Prop := Text.byteLength n.toList ≤ p.maxNameLength

/-- The names that a profile gives to what has none fit. -/
structure FitsDerived (p : Profile) : Prop where
  index : ∀ ix, ix.name = none → p.FitsName (p.indexName ix)
  foreignKey : ∀ k, k.name = none → p.FitsName (p.foreignKeyName k)
  constraint : ∀ c, c.name = none → p.FitsName (p.constraintName c)
  default : ∀ table column, p.FitsName (p.defaultConstraintName table column)

/-- A name that fits, unless the change gives it. -/
def LimitsName (p : Profile) (change : Change) (n : String) : Prop :=
  n ∈ change.writtenNames ∨ p.FitsName n

/-- A text of a change or a default schema, or SQL whose names are limited. -/
def LimitsText (p : Profile) (change : Change) (s : String) : Prop :=
  change.GivesText p.quoter s ∨
    ∃ inner, p.Embedded inner ∧ (∀ n, .name n ∈ inner → p.LimitsName change n) ∧
      s = inner.write p.quoter

/-- All names in a statement are limited, those too that stand in a text of it. -/
structure LimitsNames (p : Profile) (change : Change) (sql : Sql) : Prop where
  names : ∀ n, .name n ∈ sql → p.LimitsName change n
  texts : ∀ s, .text s ∈ sql → p.LimitsText change s

theorem fitsName_fitName (p : Profile) (n : String) : p.FitsName (p.fitName n) :=
  Naming.byteLength_truncate_le n p.maxNameLength

/-- Every way to derive a name shortens it. -/
theorem fitsDerived (p : Profile) : p.FitsDerived where
  index ix h := by rw [indexName, h]; exact p.fitsName_fitName _
  foreignKey k h := by rw [foreignKeyName, h]; exact p.fitsName_fitName _
  constraint c h := by rw [constraintName, h]; exact p.fitsName_fitName _
  default _ _ := p.fitsName_fitName _

end Profile

/-- What a profile adds to the names and texts of a change is limited as well. -/
theorem admits_limitsName (d : Dialect) (mode : Mode) (o : Options) (change : Change) :
    let p := Profile.of d mode o
    p.Admits (p.LimitsName change) (p.LimitsText change) where
  defaultSchema _ hs := by
    refine ⟨.inr ?_, .inl (Or.inr (Or.inr (Or.inr hs)))⟩
    cases d <;> cases hs <;> exact Nat.le_of_ble_eq_true rfl
  derived _ _ _ := .inr (Profile.fitsName_fitName _ _)
  embedded inner hinner hnames := .inr ⟨inner, hinner, hnames, rfl⟩

/-- The names and texts of a change count as limited. -/
theorem known_limitsName (p : Profile) (change : Change) :
    change.Known (p.LimitsName change) (p.LimitsText change) :=
  Change.known_of_givesText (fun _ => .inl) fun _ => .inl

/-- Every name is shortened to every limit, and what comes out is not shortened again. So the names
that a dialect derives fit it, and in the statements of a change stand no longer names but those
that the change gives. -/
theorem derived_names_fit :
    (∀ name limit, ∃ short, Naming.truncateBytes name limit = pure short ∧
      Naming.truncate name limit = short ∧ Naming.Shortens limit name short ∧
      Naming.truncateBytes short limit = pure short) ∧
    ∀ d mode o, (Profile.of d mode o).FitsDerived ∧
      ∀ change sqls, (Profile.of d mode o).statements change = .ok sqls →
        ∀ sql ∈ sqls, (Profile.of d mode o).LimitsNames change sql := by
  refine ⟨fun name limit => ?_, fun d mode o => ⟨Profile.fitsDerived _, fun change sqls h => ?_⟩⟩
  · have hshort := Naming.shortens_truncate name limit
    refine ⟨_, Naming.truncateBytes_eq name limit, rfl, hshort, ?_⟩
    rw [Naming.truncateBytes_eq, Naming.truncate_of_le hshort.fits]
  · have hwithin := within_statementsOfValid (confines_of (admits_limitsName d mode o change))
      (known_limitsName _ change) sqls (check_of_statements h).2
    exact fun sql hsql => ⟨fun n hn => hwithin sql hsql _ hn, fun s hs => hwithin sql hsql _ hs⟩

/-- The last byte that has room lies inside a character, which is left out as a whole. -/
theorem derived_names_fit_index :
    let p := Profile.of .oracle .strict {}
    let index := (Index.onTable "Auftragspositionsübersicht").withColumn ⟨"kunde", .ascending⟩
    ∃ sqls, p.statements (.createIndex index) = .ok sqls ∧
      index.name = none ∧ p.indexName index = "IX_Auftragspositions_dfde2410" ∧
      p.FitsName (p.indexName index) ∧
      ∀ sql ∈ sqls, p.LimitsNames (.createIndex index) sql :=
  ⟨_, rfl, rfl, by decide +kernel, (derived_names_fit.2 _ _ _).1.index _ rfl,
    (derived_names_fit.2 _ _ _).2 _ _ rfl⟩

end SchemaChange
