import SchemaChange.Proofs.Sql.DerivedName
import SchemaChange.Proofs.Sql.TypeName

/-!
# Statement forms in scripts

Every form of a dialect makes a statement that is read as a whole from parts that are.
-/
namespace SchemaChange

open Script

namespace Sql

/-- A form of one part that keeps parts apart. -/
def Keeps (q : Quoter) (form : Sql → Sql) : Prop :=
  ∀ {tight x}, Closing q tight x → Statement q tight (form x)

/-- A form of two parts, the second of which may stand last. -/
def Keeps₂ (q : Quoter) (form : Sql → Sql → Sql) : Prop :=
  ∀ {tight x y}, Woven q x → Closing q tight y → Statement q tight (form x y)

/-- A form of two parts with SQL of its own behind them. -/
def Encloses₂ (q : Quoter) (form : Sql → Sql → Sql) : Prop :=
  ∀ {tight x y}, Woven q x → Woven q y → Statement q tight (form x y)

/-- A form of three parts. -/
def Keeps₃ (q : Quoter) (form : Sql → Sql → Sql → Sql) : Prop :=
  ∀ {tight x y z}, Closing q tight x → Closing q tight y → Closing q tight z →
    Statement q tight (form x y z)

variable {q : Quoter} {a b c : String}

theorem keeps_lead (ha : (isFirm a.toList && isOpening a) = true) :
    Keeps q (fun x => [.code a] ++ x) := fun hx => .lead ha hx

theorem keeps₂_between (ha : (isFirm a.toList && isOpening a) = true)
    (hb : isFirm b.toList = true) : Keeps₂ q (fun x y => [.code a] ++ x ++ [.code b] ++ y) := by
  intro tight x y hx hy
  simp only [List.append_assoc]
  exact .lead ha (.then hx hb hy)

theorem encloses₂ (ha : (isFirm a.toList && isOpening a) = true)
    (hb : isFirm b.toList = true) (hc : (isFirm c.toList && isClosed c) = true) :
    Encloses₂ q (fun x y => [.code a] ++ x ++ [.code b] ++ y ++ [.code c]) := by
  intro tight x y hx hy
  simp only [List.append_assoc]
  exact .lead ha (.then hx hb (.last hy hc))

theorem keeps₂_around (ha : (isFirm a.toList && isOpening a) = true)
    (hb : isFirm b.toList = true) (hc : (isFirm c.toList && isClosed c) = true) :
    Keeps₂ q (fun x y => [.code a] ++ x ++ [.code b] ++ y ++ [.code c]) :=
  fun hx hy => encloses₂ ha hb hc hx hy.woven

theorem keeps₃_between (ha : (isFirm a.toList && isOpening a) = true)
    (hb : isFirm b.toList = true) (hc : isFirm c.toList = true) :
    Keeps₃ q (fun x y z => [.code a] ++ x ++ [.code b] ++ y ++ [.code c] ++ z) := by
  intro tight x y z hx hy hz
  simp only [List.append_assoc]
  exact .lead ha (.then hx.woven hb (.then hy.woven hc hz))

end Sql

/-- Every form of a dialect keeps its parts apart. -/
structure Forms.Sound (q : Quoter) (f : Forms) : Prop where
  createSchema : ∀ form ∈ f.createSchema, Sql.Keeps q form
  dropSchema : ∀ form ∈ f.dropSchema, Sql.Keeps q form
  moveTable : ∀ form ∈ f.moveTable, Sql.Keeps₃ q form
  createTable : Sql.Encloses₂ q f.createTable
  dropTableIfExists : ∀ form ∈ f.dropTableIfExists, Sql.Keeps q form
  renameTable : ∀ {tight r}, Sql.Closing q tight r.table → Sql.Closing q tight r.newTable →
    Sql.Closing q tight (Sql.name r.newName) → Sql.Statement q tight (f.renameTable r)
  addColumn : Sql.Keeps₂ q f.addColumn
  alterColumn : ∀ form ∈ f.alterColumn, Sql.Keeps₂ q form
  dropColumn : Sql.Keeps₂ q f.dropColumn
  renameColumn : ∀ {tight table column newName}, Sql.Closing q tight table →
    Sql.Closing q tight column → Sql.Closing q tight (Sql.name newName) →
    Sql.Statement q tight (f.renameColumn table column newName)
  addForeignKey : ∀ form ∈ f.addForeignKey, Sql.Keeps₂ q form
  dropForeignKey : ∀ form ∈ f.dropForeignKey, Sql.Keeps₂ q form
  dropIndex : Sql.Keeps₃ q f.dropIndex
  setDefault : ∀ form ∈ f.setDefault, Sql.Keeps₃ q form
  dropDefault : ∀ form ∈ f.dropDefault, Sql.Encloses₂ q form

namespace Forms

variable (q : Quoter)

/-- The forms of the common standard. -/
theorem sound_standard : Sound q {} where
  createSchema := by rintro _ ⟨⟩; exact Sql.keeps_lead (by decide)
  dropSchema := by rintro _ ⟨⟩; exact Sql.keeps_lead (by decide)
  moveTable := nofun
  createTable := Sql.encloses₂ (by decide) (by decide) (by decide)
  dropTableIfExists := by rintro _ ⟨⟩; exact Sql.keeps_lead (by decide)
  renameTable ht _ hn := Sql.keeps₂_between (by decide) (by decide) ht.woven hn
  addColumn := Sql.keeps₂_between (by decide) (by decide)
  alterColumn := by rintro _ ⟨⟩; exact Sql.keeps₂_between (by decide) (by decide)
  dropColumn := Sql.keeps₂_between (by decide) (by decide)
  renameColumn ht hc hn := Sql.keeps₃_between (by decide) (by decide) (by decide) ht hc hn
  addForeignKey := by rintro _ ⟨⟩; exact Sql.keeps₂_between (by decide) (by decide)
  dropForeignKey := by rintro _ ⟨⟩; exact Sql.keeps₂_between (by decide) (by decide)
  dropIndex hx _ _ := Sql.keeps_lead (by decide) hx
  setDefault := by
    rintro _ ⟨⟩
    exact Sql.keeps₃_between (by decide) (by decide) (by decide)
  dropDefault := by
    rintro _ ⟨⟩
    exact Sql.encloses₂ (by decide) (by decide) (by decide)

theorem sound_postgres : Sound q Dialect.Postgres.forms :=
  { sound_standard q with
    moveTable := by
      rintro _ ⟨⟩
      exact fun hx _ hz => Sql.keeps₂_between (by decide) (by decide) hx.woven hz
    addColumn := Sql.keeps₂_between (by decide) (by decide)
    dropIndex := fun _ hy _ => Sql.keeps_lead (by decide) hy }

theorem sound_hana : Sound q Dialect.Hana.forms :=
  { sound_standard q with
    createTable := Sql.encloses₂ (by decide) (by decide) (by decide)
    dropTableIfExists := nofun
    renameTable := fun ht _ hn => Sql.keeps₂_between (by decide) (by decide) ht.woven hn
    addColumn := Sql.keeps₂_around (by decide) (by decide) (by decide)
    alterColumn := by
      rintro _ ⟨⟩
      exact Sql.keeps₂_around (by decide) (by decide) (by decide)
    dropColumn := Sql.keeps₂_around (by decide) (by decide) (by decide)
    renameColumn := fun ht hc hn =>
      Sql.keeps₃_between (by decide) (by decide) (by decide) ht hc hn
    setDefault := nofun
    dropDefault := nofun }

theorem sound_mySql : Sound q Dialect.MySql.forms :=
  { sound_standard q with
    createSchema := nofun
    dropSchema := nofun
    createTable := Sql.encloses₂ (by decide) (by decide) (by decide)
    renameTable := fun ht hn _ => Sql.keeps₂_between (by decide) (by decide) ht.woven hn
    alterColumn := by rintro _ ⟨⟩; exact Sql.keeps₂_between (by decide) (by decide)
    dropForeignKey := by rintro _ ⟨⟩; exact Sql.keeps₂_between (by decide) (by decide)
    dropIndex := fun hx _ hz => Sql.keeps₂_between (by decide) (by decide) hx.woven hz
    setDefault := by
      rintro _ ⟨⟩
      exact Sql.keeps₃_between (by decide) (by decide) (by decide)
    dropDefault := by
      rintro _ ⟨⟩
      exact Sql.encloses₂ (by decide) (by decide) (by decide) }

theorem sound_snowflake : Sound q Dialect.Snowflake.forms :=
  { sound_standard q with
    moveTable := by
      rintro _ ⟨⟩
      exact fun hx hy hz => Sql.keeps₃_between (by decide) (by decide) (by decide) hx hz hy
    renameTable := fun ht hn _ => Sql.keeps₂_between (by decide) (by decide) ht.woven hn
    setDefault := nofun }

theorem sound_sqlite : Sound q Dialect.Sqlite.forms :=
  { sound_standard q with
    createSchema := nofun
    dropSchema := nofun
    alterColumn := nofun
    addForeignKey := nofun
    dropForeignKey := nofun
    setDefault := nofun
    dropDefault := nofun }

/-- Names that are given as literals are read as wholes in any case. -/
theorem sound_sqlServer : Sound q (Dialect.SqlServer.forms q) :=
  { sound_standard q with
    moveTable := by
      rintro _ ⟨⟩
      exact fun hx _ hz => Sql.keeps₂_between (by decide) (by decide) hz.woven hx
    renameTable := fun _ _ _ =>
      Sql.keeps₂_between (by decide) (by decide) (woven_text q _) (closing_text q _)
    addColumn := Sql.keeps₂_between (by decide) (by decide)
    renameColumn := by
      intro tight table column newName _ _ _
      have hkind : ", N'COLUMN'".toList =
          ", N".toList ++ (Dialect.quotedCode "COLUMN".toList).toList := by decide
      refine .behind (Sql.keeps₂_between (by decide) (by decide) (woven_text q _)
        (closing_text q _)) ?_ (apart_cons (by decide) _) (by decide)
      rw [hkind]
      exact .lead (standing_quotedCode _ (by decide)) (firm (by decide))
    dropIndex := fun hx _ hz => Sql.keeps₂_between (by decide) (by decide) hx.woven hz }

end Forms

end SchemaChange
