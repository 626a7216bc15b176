import SchemaChange.Proofs.Sql.OwnSql
import SchemaChange.Sql.Data

/-!
# Runs in two modes

An operation of a profile run in strict and in emulate mode. The two runs agree unless the strict
one stops at a feature that the dialect lacks. In emulate mode nothing but a system method without
a spelling is ever missing. Both facts pass from the steps of an operation to the whole.
-/
namespace SchemaChange

/-- Some value is a system method. -/
def CallsSystem (values : List Literal) : Prop := ∃ m, Literal.systemMethod m ∈ values

/-- The operation misses nothing of the dialect, unless it writes a system method. -/
def MissesNothing {α : Type} (values : List Literal) (x : Except Error α) : Prop :=
  ∀ e, x = .error e → e.isUnsupported = true → CallsSystem values

section MissesNothing

variable {α β : Type} {values : List Literal} {x : Except Error α}

theorem missesNothing_ok (a : α) : MissesNothing values (.ok a : Except Error α) := by
  intro e he
  cases he

theorem missesNothing_error {e : Error} (h : e.isUnsupported = false) :
    MissesNothing values (.error e : Except Error α) := by
  intro e' he hunsupported
  cases he
  rw [h] at hunsupported
  cases hunsupported

theorem MissesNothing.bind {f : α → Except Error β} (hx : MissesNothing values x)
    (hf : ∀ a, MissesNothing values (f a)) : MissesNothing values (x >>= f) := by
  cases x with
  | error e =>
      intro e' he
      cases he
      exact hx e rfl
  | ok a => exact hf a

theorem missesNothing_mapM {f : α → Except Error β} {as : List α}
    (hf : ∀ a ∈ as, MissesNothing values (f a)) : MissesNothing values (as.mapM f) := by
  induction as with
  | nil => exact missesNothing_ok []
  | cons a as ih =>
      rw [List.mapM_cons]
      have hfirst := hf a (List.mem_cons_self ..)
      have hothers := ih fun b hb => hf b (List.mem_cons_of_mem _ hb)
      exact hfirst.bind fun b => hothers.bind fun bs => missesNothing_ok (b :: bs)

end MissesNothing

/-- The second run does what the first one does, unless that one stops at a missing feature; and
it stops at none itself. -/
structure Eases {α : Type} (values : List Literal) (strict lenient : Except Error α) : Prop where
  agrees : strict = lenient ∨ ∃ d feature, strict = .error (.unsupported d feature)
  missesNothing : MissesNothing values lenient

section Eases

variable {α β : Type} {values : List Literal} {x y : Except Error α}

/-- An operation that knows no mode. -/
theorem MissesNothing.eases (h : MissesNothing values x) : Eases values x x := ⟨.inl rfl, h⟩

theorem eases_ok (a : α) : Eases values (.ok a : Except Error α) (.ok a) :=
  (missesNothing_ok a).eases

theorem Eases.bind {f g : α → Except Error β} (hx : Eases values x y)
    (hf : ∀ a, Eases values (f a) (g a)) : Eases values (x >>= f) (y >>= g) := by
  constructor
  · rcases hx.agrees with rfl | ⟨d, feature, rfl⟩
    · cases x with
      | error e => exact .inl rfl
      | ok a => exact (hf a).agrees
    · exact .inr ⟨d, feature, rfl⟩
  · exact hx.missesNothing.bind fun a => (hf a).missesNothing

theorem eases_mapM {f g : α → Except Error β} {as : List α}
    (hf : ∀ a ∈ as, Eases values (f a) (g a)) : Eases values (as.mapM f) (as.mapM g) := by
  induction as with
  | nil => exact eases_ok []
  | cons a as ih =>
      rw [List.mapM_cons, List.mapM_cons]
      have hfirst := hf a (List.mem_cons_self ..)
      have hothers := ih fun b hb => hf b (List.mem_cons_of_mem _ hb)
      exact hfirst.bind fun b => hothers.bind fun bs => eases_ok (b :: bs)

/-- A choice that both runs make, each by its own way to decide. -/
theorem eases_ite {c : Prop} {i j : Decidable c} {x' y' : Except Error α}
    (ht : c → Eases values x y) (hf : ¬c → Eases values x' y') :
    Eases values (@ite _ c i x x') (@ite _ c j y y') := by
  by_cases h : c
  · rw [if_pos h, if_pos h]
    exact ht h
  · rw [if_neg h, if_neg h]
    exact hf h

/-- A success of the strict run is one of the lenient run. -/
theorem Eases.ok (h : Eases values x y) {a : α} (ha : x = .ok a) : y = .ok a := by
  rcases h.agrees with heq | ⟨d, feature, hx⟩
  · rw [← heq, ha]
  · rw [hx] at ha
    cases ha

/-- A failure of the strict run for another reason is one of the lenient run. -/
theorem Eases.error (h : Eases values x y) {e : Error} (he : x = .error e)
    (hother : e.isUnsupported = false) : y = .error e := by
  rcases h.agrees with heq | ⟨d, feature, hx⟩
  · rw [← heq, he]
  · rw [hx] at he
    cases he
    cases hother

end Eases

/-- A profile in another mode. -/
def Profile.inMode (p : Profile) (mode : Mode) : Profile := { p with mode }

theorem Profile.of_eq_inMode (d : Dialect) (o : Options) (mode mode' : Mode) :
    Profile.of d mode o = (Profile.of d mode' o).inMode mode := by
  cases d <;> rfl

section Missing

variable {values : List Literal} (p : Profile) (feature : Feature)

/-- A missing feature is where the modes differ. -/
theorem eases_unsupported : Eases values ((p.inMode .strict).unsupported feature)
    ((p.inMode .emulate).unsupported feature) :=
  ⟨.inr ⟨p.dialect, feature, rfl⟩, missesNothing_ok ()⟩

/-- Work that first needs a feature in some case. -/
theorem eases_after {α : Type} {c : Prop} {i j : Decidable c} {x y : Except Error α}
    (h : Eases values x y) :
    Eases values (@ite _ c i ((p.inMode .strict).unsupported feature >>= fun _ => x) x)
      (@ite _ c j ((p.inMode .emulate).unsupported feature >>= fun _ => y) y) :=
  eases_ite (fun _ => (eases_unsupported p feature).bind fun _ => h) fun _ => h

theorem eases_skip : Eases values ((p.inMode .strict).skip feature)
    ((p.inMode .emulate).skip feature) := by
  unfold Profile.skip
  exact (eases_unsupported p feature).bind fun _ => eases_ok []

end Missing

namespace Profile

variable (p : Profile) (mode : Mode)

/-! Nothing but the treatment of missing features depends on the mode. -/

@[simp] theorem inMode_dialect : (p.inMode mode).dialect = p.dialect := rfl

@[simp] theorem inMode_quoter : (p.inMode mode).quoter = p.quoter := rfl

@[simp] theorem inMode_forms : (p.inMode mode).forms = p.forms := rfl

@[simp] theorem inMode_clauseOrder : (p.inMode mode).clauseOrder = p.clauseOrder := rfl

@[simp] theorem inMode_nativeType : (p.inMode mode).nativeType = p.nativeType := rfl

@[simp] theorem inMode_clause : (p.inMode mode).clause = p.clause := rfl

@[simp] theorem inMode_isVoid : (p.inMode mode).isVoid = p.isVoid := rfl

@[simp] theorem inMode_hoistsKey : (p.inMode mode).hoistsKey = p.hoistsKey := rfl

@[simp] theorem inMode_foreignKeyName : (p.inMode mode).foreignKeyName = p.foreignKeyName := rfl

@[simp] theorem inMode_indexName : (p.inMode mode).indexName = p.indexName := rfl

@[simp] theorem inMode_constraintName : (p.inMode mode).constraintName = p.constraintName := rfl

@[simp] theorem inMode_collationName : (p.inMode mode).collationName = p.collationName := rfl

@[simp] theorem inMode_describeTable : (p.inMode mode).describeTable = p.describeTable := rfl

@[simp] theorem inMode_describeColumn : (p.inMode mode).describeColumn = p.describeColumn := rfl

@[simp] theorem inMode_describeNewTable :
    (p.inMode mode).describeNewTable = p.describeNewTable := rfl

@[simp] theorem inMode_dropDefaults : (p.inMode mode).dropDefaults = p.dropDefaults := rfl

@[simp] theorem inMode_addDefault : (p.inMode mode).addDefault = p.addDefault := rfl

@[simp] theorem inMode_alterColumnParts :
    (p.inMode mode).alterColumnParts = p.alterColumnParts := rfl

@[simp] theorem inMode_assignment : (p.inMode mode).assignment = p.assignment := rfl

@[simp] theorem inMode_update : (p.inMode mode).update = p.update := rfl

@[simp] theorem inMode_deleteColumns : (p.inMode mode).deleteColumns = p.deleteColumns := rfl

@[simp] theorem inMode_insertData : (p.inMode mode).insertData = p.insertData := rfl

@[simp] theorem inMode_updateData : (p.inMode mode).updateData = p.updateData := rfl

@[simp] theorem inMode_deleteData : (p.inMode mode).deleteData = p.deleteData := rfl

end Profile

section Values

variable {values : List Literal}

/-- Of all values, only a system method can be missing. -/
theorem missesNothing_literal (d : Dialect) {v : Literal} (hv : v ∈ values) :
    MissesNothing values (v.sql d) := by
  cases v with
  | float x =>
      rw [Literal.sql]
      split
      · exact missesNothing_ok _
      · exact missesNothing_error rfl
  | systemMethod m =>
      intro e _ _
      exact ⟨m, hv⟩
  | _ => exact missesNothing_ok _

theorem missesNothing_check (check : Check) : MissesNothing values check.orFail := by
  cases check with
  | error cause => exact missesNothing_error rfl
  | ok u => exact missesNothing_ok u

variable {p : Profile}

theorem missesNothing_typeMap (m : TypeMap) (type : DbType) (size precision : Option UInt32) :
    MissesNothing values (m.get type size precision) := by
  unfold TypeMap.get
  refine MissesNothing.bind ?_ fun _ => missesNothing_ok _
  cases m.bucket type (size.getD 0).toNat with
  | error cause => exact missesNothing_error rfl
  | ok capacity => exact missesNothing_ok capacity

theorem missesNothing_nativeType (c : Column) : MissesNothing values (p.nativeType c) := by
  unfold Profile.nativeType
  split
  · exact missesNothing_ok _
  · exact (missesNothing_typeMap _ _ _ _).bind fun _ => missesNothing_ok _

theorem missesNothing_addDefault (table : ObjectName) (column : String) {v : Literal}
    (hv : v ∈ values) : MissesNothing values (p.addDefault table column v) := by
  unfold Profile.addDefault
  exact (missesNothing_literal p.dialect hv).bind fun _ => missesNothing_ok _

theorem missesNothing_assignment (column : String) {v : Literal} (hv : v ∈ values) :
    MissesNothing values (p.assignment column v) := by
  unfold Profile.assignment
  exact (missesNothing_literal p.dialect hv).bind fun _ => missesNothing_ok _

end Values

end SchemaChange
