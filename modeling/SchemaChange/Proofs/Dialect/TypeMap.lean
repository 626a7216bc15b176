import Mathlib.Data.Nat.Find
import Mathlib.Order.Bounds.Basic
import SchemaChange.Dialect.TypeMap
import SchemaChange.Proofs.Sql.Outcome

/-!
# The lookup of native types

A map answers with what was registered last for a type and a capacity, whatever came before or in
between for others. A size takes the least capacity that holds it, so no size takes a smaller
capacity than a smaller size does.
-/
namespace SchemaChange.TypeMap

/-- What was registered, in order: a type, a capacity and a template each time. -/
abbrev History := List (DbType × Nat × String)

/-- Some template was registered for the type and the capacity. -/
def Registers (history : History) (type : DbType) (capacity : Nat) : Prop :=
  ∃ template, (type, capacity, template) ∈ history

/-- The template is the one that was registered last for the type and the capacity. -/
def RegistersLast (history : History) (type : DbType) (capacity : Nat) (template : String) :
    Prop :=
  ∃ earlier later, history = earlier ++ (type, capacity, template) :: later ∧
    ¬ Registers later type capacity

/-- The capacities registered for a type that hold a size. -/
def holding (history : History) (type : DbType) (size : Nat) : Set Nat :=
  {capacity | Registers history type capacity ∧ size ≤ capacity}

section Lookup

variable {m m' : TypeMap} {type : DbType} {size capacity : Nat}

theorem mem_of_bucket (h : m.bucket type size = .ok capacity) : capacity ∈ m.capacities type := by
  simp only [bucket] at h
  split at h
  · cases h
  · split at h
    · split at h
      · rename_i hzero
        cases h
        exact List.contains_iff_mem.1 hzero
      · cases h
    · split at h
      · cases h
        rename_i hmin
        exact (List.mem_filter.1 (List.min?_mem hmin)).1
      · cases h

theorem template?_of_mem (h : capacity ∈ m.capacities type) :
    ∃ r ∈ m.registrations, m.template? type capacity = some r.template := by
  obtain ⟨r, hr, rfl⟩ := List.mem_map.1 h
  obtain ⟨hr, htype⟩ := List.mem_filter.1 hr
  rw [template?]
  cases hfind : m.registrations.find? fun r' => r'.type == type && r'.capacity == r.capacity with
  | none => simpa [htype] using List.find?_eq_none.1 hfind r hr
  | some found => exact ⟨found, List.mem_of_find?_eq_some hfind, rfl⟩

theorem mem_capacities_iff :
    capacity ∈ m.capacities type ↔ ∃ template, m.template? type capacity = some template := by
  constructor
  · intro h
    obtain ⟨r, -, htemplate⟩ := template?_of_mem h
    exact ⟨r.template, htemplate⟩
  · rintro ⟨template, h⟩
    obtain ⟨r, hfind, -⟩ := Option.map_eq_some_iff.1 h
    have hmatch := List.find?_some hfind
    simp only [Bool.and_eq_true, beq_iff_eq] at hmatch
    have hkept : r ∈ m.registrations.filter fun r => r.type == type :=
      List.mem_filter.2 ⟨List.mem_of_find?_eq_some hfind, beq_iff_eq.2 hmatch.1⟩
    exact List.mem_map.2 ⟨r, hkept, hmatch.2⟩

theorem supports_iff : m.supports type ↔ ∃ capacity, capacity ∈ m.capacities type := by
  simp only [supports, capacities, List.any_eq_true, List.mem_map, List.mem_filter]
  constructor
  · rintro ⟨r, hr, htype⟩
    exact ⟨r.capacity, r, ⟨hr, htype⟩, rfl⟩
  · rintro ⟨_, r, hr, -⟩
    exact ⟨r, hr⟩

/-- Where sizes are told apart, a size takes the least capacity that holds it. -/
theorem bucket_eq_ok_iff (hsized : ∃ capacity > 0, capacity ∈ m.capacities type)
    (hsize : size ≠ 0) : m.bucket type size = .ok capacity ↔
      IsLeast {capacity | capacity ∈ m.capacities type ∧ size ≤ capacity} capacity := by
  obtain ⟨large, hlarge, hmem⟩ := hsized
  have hsome : (m.capacities type).isEmpty = false :=
    List.isEmpty_eq_false_iff.2 (List.ne_nil_of_mem hmem)
  have htold : ¬ (size = 0 ∨ (m.capacities type).all (· == 0) = true) := by
    rintro (h | h)
    · exact hsize h
    · have hzero := List.all_eq_true.1 h large hmem
      exact absurd (beq_iff_eq.1 hzero) (Nat.ne_of_gt hlarge)
  have hleast : ((m.capacities type).filter (size ≤ ·)).min? = some capacity ↔
      IsLeast {capacity | capacity ∈ m.capacities type ∧ size ≤ capacity} capacity := by
    simp only [List.min?_eq_some_iff, List.mem_filter, decide_eq_true_eq, and_imp, IsLeast,
      lowerBounds, Set.mem_ofPred_eq]
  rw [← hleast, bucket]
  simp only [hsome, htold, Bool.false_eq_true, if_false]
  cases ((m.capacities type).filter (size ≤ ·)).min? <;> simp

/-- Without a size, or where sizes are not told apart, there is capacity zero or none. -/
theorem bucket_unsized (h : size = 0 ∨ ∀ capacity ∈ m.capacities type, capacity = 0) :
    m.bucket type size = .ok capacity ↔ capacity = 0 ∧ 0 ∈ m.capacities type := by
  have hplain : size = 0 ∨ (m.capacities type).all (· == 0) = true :=
    h.imp_right fun h => List.all_eq_true.2 fun capacity hmem => beq_iff_eq.2 (h capacity hmem)
  rw [bucket]
  simp only [hplain, if_true, List.isEmpty_iff, List.contains_iff_mem]
  split
  next hnil => simp [hnil]
  next =>
    split
    next hzero => simp [hzero, eq_comm]
    next hzero => simp [hzero]

/-- The bucket depends only on which capacities are registered. -/
theorem bucket_congr (hdialect : m.dialect = m'.dialect)
    (h : ∀ capacity, capacity ∈ m.capacities type ↔ capacity ∈ m'.capacities type) :
    m.bucket type size = m'.bucket type size := by
  have hempty : (m.capacities type).isEmpty = (m'.capacities type).isEmpty := by
    rw [Bool.eq_iff_iff]
    simp only [List.isEmpty_iff, List.eq_nil_iff_forall_not_mem, h]
  have hall : (m.capacities type).all (· == 0) = (m'.capacities type).all (· == 0) := by
    rw [Bool.eq_iff_iff]
    simp only [List.all_eq_true, h]
  have hzero : (m.capacities type).contains 0 = (m'.capacities type).contains 0 := by
    rw [Bool.eq_iff_iff]
    simp only [List.contains_iff_mem, h]
  have hmin : ((m.capacities type).filter (size ≤ ·)).min? =
      ((m'.capacities type).filter (size ≤ ·)).min? := by
    ext capacity
    simp only [List.min?_eq_some_iff, List.mem_filter, h]
  simp only [bucket, hempty, hall, hzero, hmin, hdialect]

section Get

variable {size precision : Option UInt32} {text : String}

/-- A lookup answers with the template of the bucket of its size, and fails where that does. -/
theorem get_eq_ok_iff : m.get type size precision = .ok text ↔ ∃ capacity template,
    m.bucket type (size.getD 0).toNat = .ok capacity ∧ m.template? type capacity = some template ∧
      text = instantiate template (size.getD 0).toNat (precision.getD 0).toNat := by
  rw [get]
  cases hbucket : m.bucket type (size.getD 0).toNat with
  | error cause =>
      constructor
      · nofun
      · rintro ⟨_, _, h, -⟩
        cases h
  | ok capacity =>
      obtain ⟨r, -, htemplate⟩ := template?_of_mem (mem_of_bucket hbucket)
      change Except.ok (instantiate ((m.template? type capacity).getD "") _ _) = _ ↔ _
      simp only [htemplate, Option.getD_some, Except.ok.injEq]
      constructor
      · rintro rfl
        exact ⟨capacity, r.template, rfl, htemplate, rfl⟩
      · rintro ⟨_, template, rfl, hsame, rfl⟩
        rw [htemplate, Option.some.injEq] at hsame
        rw [hsame]

theorem exists_get_iff : (∃ text, m.get type size precision = .ok text) ↔
    ∃ capacity, m.bucket type (size.getD 0).toNat = .ok capacity := by
  constructor
  · rintro ⟨text, h⟩
    obtain ⟨capacity, -, hbucket, -⟩ := get_eq_ok_iff.1 h
    exact ⟨capacity, hbucket⟩
  · rintro ⟨capacity, hbucket⟩
    obtain ⟨r, -, htemplate⟩ := template?_of_mem (mem_of_bucket hbucket)
    exact ⟨_, get_eq_ok_iff.2 ⟨capacity, r.template, hbucket, htemplate, rfl⟩⟩

/-- What is found is a registered template with numbers put in. -/
theorem exists_of_get (h : m.get type size precision = .ok text) : ∃ r ∈ m.registrations,
    text = instantiate r.template (size.getD 0).toNat (precision.getD 0).toNat := by
  obtain ⟨capacity, template, hbucket, htemplate, rfl⟩ := get_eq_ok_iff.1 h
  obtain ⟨r, hr, hfound⟩ := template?_of_mem (mem_of_bucket hbucket)
  rw [htemplate, Option.some.injEq] at hfound
  exact ⟨r, hr, by rw [hfound]⟩

end Get

/-- No lookup of the type tells the maps apart. -/
def Alike (m m' : TypeMap) (type : DbType) : Prop :=
  m.supports type = m'.supports type ∧
    ∀ size precision, m.get type size precision = m'.get type size precision

/-- Lookups of a type depend only on its templates. -/
theorem alike_of_template? (hdialect : m.dialect = m'.dialect)
    (h : ∀ capacity, m.template? type capacity = m'.template? type capacity) :
    Alike m m' type := by
  have hmem : ∀ capacity, capacity ∈ m.capacities type ↔ capacity ∈ m'.capacities type := by
    intro capacity
    rw [mem_capacities_iff, mem_capacities_iff, h]
  constructor
  · rw [Bool.eq_iff_iff, supports_iff, supports_iff]
    simp only [hmem]
  · intro size precision
    simp only [get, bucket_congr hdialect hmem, h]

end Lookup

section History

variable {dialect : Dialect} {history earlier later : History} {type : DbType} {capacity : Nat}
  {template : String}

theorem exists_registersLast (h : Registers history type capacity) :
    ∃ template, RegistersLast history type capacity template := by
  induction history with
  | nil =>
      obtain ⟨_, hmem⟩ := h
      cases hmem
  | cons entry history ih =>
      by_cases hlater : Registers history type capacity
      · obtain ⟨template, earlier, later, rfl, hlast⟩ := ih hlater
        exact ⟨template, entry :: earlier, later, rfl, hlast⟩
      · obtain ⟨template, hmem⟩ := h
        rcases List.mem_cons.1 hmem with rfl | hmem
        · exact ⟨template, [], history, rfl, hlater⟩
        · exact absurd ⟨template, hmem⟩ hlater

theorem foldl_setSized (m : TypeMap) :
    history.foldl (fun m (type, capacity, template) => m.setSized type capacity template) m =
      { m with registrations :=
          (history.map fun entry => ⟨entry.1, entry.2.1, entry.2.2⟩).reverse ++
            m.registrations } := by
  induction history generalizing m with
  | nil => rfl
  | cons entry history ih =>
      rw [List.foldl_cons, ih]
      simp [setSized]

theorem registrations_ofList : (ofList dialect history).registrations =
    (history.map fun entry => ⟨entry.1, entry.2.1, entry.2.2⟩).reverse := by
  rw [ofList, foldl_setSized]
  exact List.append_nil _

theorem dialect_ofList : (ofList dialect history).dialect = dialect := by
  rw [ofList, foldl_setSized]

/-- One more registration is one more entry of the history. -/
theorem setSized_ofList : (ofList dialect history).setSized type capacity template =
    ofList dialect (history ++ [(type, capacity, template)]) := by
  rw [ofList, ofList, List.foldl_append]
  rfl

theorem mem_capacities_ofList :
    capacity ∈ (ofList dialect history).capacities type ↔ Registers history type capacity := by
  simp only [capacities, registrations_ofList, Registers, List.mem_map, List.mem_filter,
    List.mem_reverse, beq_iff_eq]
  constructor
  · rintro ⟨_, ⟨⟨⟨_, _, template⟩, hmem, rfl⟩, rfl⟩, rfl⟩
    exact ⟨template, hmem⟩
  · rintro ⟨template, hmem⟩
    exact ⟨_, ⟨⟨_, hmem, rfl⟩, rfl⟩, rfl⟩

/-- Later registrations come before earlier ones. -/
theorem template?_ofList_append :
    (ofList dialect (earlier ++ later)).template? type capacity =
      ((ofList dialect later).template? type capacity).or
        ((ofList dialect earlier).template? type capacity) := by
  simp only [template?, registrations_ofList, List.map_append, List.reverse_append,
    List.find?_append, Option.map_or]

theorem template?_ofList_single {entry : DbType × Nat × String} :
    (ofList dialect [entry]).template? type capacity =
      if (entry.1, entry.2.1) = (type, capacity) then some entry.2.2 else none := by
  have hkey : (entry.1 == type && entry.2.1 == capacity) =
      decide ((entry.1, entry.2.1) = (type, capacity)) := by
    rw [Bool.eq_iff_iff]
    simp
  simp only [template?, registrations_ofList, List.map_cons, List.map_nil, List.reverse_singleton,
    List.find?_cons, List.find?_nil, hkey]
  split <;> simp_all

theorem template?_ofList_iff :
    (ofList dialect history).template? type capacity = some template ↔
      RegistersLast history type capacity template := by
  have hlast : ∀ {template}, RegistersLast history type capacity template →
      (ofList dialect history).template? type capacity = some template := by
    rintro template ⟨earlier, later, rfl, hlater⟩
    have hnone : (ofList dialect later).template? type capacity = none := by
      rw [Option.eq_none_iff_forall_ne_some]
      intro other hother
      exact hlater (mem_capacities_ofList.1 (mem_capacities_iff.2 ⟨other, hother⟩))
    rw [List.append_cons, template?_ofList_append, hnone, template?_ofList_append,
      template?_ofList_single]
    simp
  constructor
  · intro h
    have hmem := mem_capacities_ofList.1 (mem_capacities_iff.2 ⟨template, h⟩)
    obtain ⟨last, hregisters⟩ := exists_registersLast hmem
    rw [hlast hregisters, Option.some.injEq] at h
    rwa [h] at hregisters
  · exact hlast

end History

/-- How a map serves the sizes of a type for which a history has capacities. -/
structure ServesSizes (m : TypeMap) (history : History) (type : DbType) : Prop where
  succeeds_iff : ∀ (size : UInt32) (precision : Option UInt32), 1 ≤ size →
    ((∃ text, m.get type (some size) precision = .ok text) ↔
      ∃ capacity, Registers history type capacity ∧ size.toNat ≤ capacity)
  get_iff : ∀ (size : UInt32) (precision : Option UInt32) (text : String), 1 ≤ size →
    (m.get type (some size) precision = .ok text ↔ ∃ capacity template,
      IsLeast (holding history type size.toNat) capacity ∧
        RegistersLast history type capacity template ∧
        text = instantiate template size.toNat (precision.getD 0).toNat)
  bucket_iff : ∀ size capacity : Nat, 1 ≤ size →
    (m.bucket type size = .ok capacity ↔ IsLeast (holding history type size) capacity)
  bucket_mono : ∀ a b small large : Nat, 1 ≤ a → a ≤ b → m.bucket type a = .ok small →
    m.bucket type b = .ok large → small ≤ large
  succeeds_below : ∀ (a b : UInt32) (precision precision' : Option UInt32), 1 ≤ a → a ≤ b →
    (∃ text, m.get type (some b) precision = .ok text) →
      ∃ text, m.get type (some a) precision' = .ok text

/-- How a map serves a type without a size, or one for which sizes are not told apart. -/
structure ServesUnsized (m : TypeMap) (history : History) (type : DbType)
    (size precision : Option UInt32) : Prop where
  get_iff : ∀ text, m.get type size precision = .ok text ↔
    ∃ template, RegistersLast history type 0 template ∧
      text = instantiate template (size.getD 0).toNat (precision.getD 0).toNat
  fails : ¬ Registers history type 0 → ∃ cause, m.get type size precision = .error (.noType cause)

section OfList

variable {dialect : Dialect} {history : History} {type : DbType}

theorem servesSizes_ofList (hsized : ∃ capacity > 0, Registers history type capacity) :
    ServesSizes (ofList dialect history) history type := by
  have hsized' : ∃ capacity > 0, capacity ∈ (ofList dialect history).capacities type := by
    simpa only [mem_capacities_ofList] using hsized
  have hbucket : ∀ size capacity : Nat, 1 ≤ size →
      ((ofList dialect history).bucket type size = .ok capacity ↔
        IsLeast (holding history type size) capacity) := by
    intro size capacity hsize
    rw [bucket_eq_ok_iff hsized' (Nat.pos_iff_ne_zero.1 hsize)]
    simp only [mem_capacities_ofList, holding]
  have hsucceeds : ∀ (size : UInt32) (precision : Option UInt32), 1 ≤ size →
      ((∃ text, (ofList dialect history).get type (some size) precision = .ok text) ↔
        ∃ capacity, Registers history type capacity ∧ size.toNat ≤ capacity) := by
    intro size precision hsize
    rw [exists_get_iff]
    simp only [Option.getD_some, hbucket size.toNat _ hsize]
    constructor
    · rintro ⟨capacity, hleast⟩
      exact ⟨capacity, hleast.1⟩
    · intro hholding
      classical
      exact ⟨Nat.find hholding, Nat.find_spec hholding, fun _ h => Nat.find_min' hholding h⟩
  refine ⟨hsucceeds, ?_, hbucket, ?_, ?_⟩
  · intro size precision text hsize
    rw [get_eq_ok_iff]
    simp only [Option.getD_some, hbucket size.toNat _ hsize, template?_ofList_iff]
  · intro a b small large ha hab hsmall hlarge
    have hleast := (hbucket a small ha).1 hsmall
    have hholds := ((hbucket b large (Nat.le_trans ha hab)).1 hlarge).1
    exact hleast.2 ⟨hholds.1, Nat.le_trans hab hholds.2⟩
  · intro a b precision precision' ha hab h
    obtain ⟨capacity, hregisters, hholds⟩ :=
      (hsucceeds b precision (UInt32.le_trans ha hab)).1 h
    have hless : a.toNat ≤ b.toNat := UInt32.le_iff_toNat_le.1 hab
    exact (hsucceeds a precision' ha).2 ⟨capacity, hregisters, Nat.le_trans hless hholds⟩

theorem servesUnsized_ofList {size : Option UInt32} (precision : Option UInt32)
    (h : size.getD 0 = 0 ∨ ∀ capacity, Registers history type capacity → capacity = 0) :
    ServesUnsized (ofList dialect history) history type size precision := by
  have hunsized : (size.getD 0).toNat = 0 ∨
      ∀ capacity ∈ (ofList dialect history).capacities type, capacity = 0 := by
    refine h.imp (fun hzero => ?_) fun h capacity hmem => h capacity (mem_capacities_ofList.1 hmem)
    rw [hzero]
    rfl
  constructor
  · intro text
    simp only [get_eq_ok_iff, bucket_unsized hunsized, mem_capacities_ofList, template?_ofList_iff]
    constructor
    · rintro ⟨_, template, ⟨rfl, -⟩, hlast, rfl⟩
      exact ⟨template, hlast, rfl⟩
    · rintro ⟨template, hlast, rfl⟩
      have hregisters : Registers history type 0 := by
        obtain ⟨earlier, later, rfl, -⟩ := hlast
        exact ⟨template, by simp⟩
      exact ⟨0, template, ⟨rfl, hregisters⟩, hlast, rfl⟩
  · intro hnone
    rw [get]
    cases hbucket : (ofList dialect history).bucket type (size.getD 0).toNat with
    | error cause => exact ⟨cause, rfl⟩
    | ok capacity =>
        have hmem := ((bucket_unsized hunsized).1 hbucket).2
        exact absurd (mem_capacities_ofList.1 hmem) hnone

/-- Registrations for different types or capacities commute. -/
theorem alike_swap (earlier later : History) {first second : DbType × Nat × String}
    (h : (first.1, first.2.1) ≠ (second.1, second.2.1)) :
    Alike (ofList dialect (earlier ++ first :: second :: later))
      (ofList dialect (earlier ++ second :: first :: later)) type := by
  refine alike_of_template? (dialect_ofList.trans dialect_ofList.symm) fun capacity => ?_
  have happend : ∀ a b : DbType × Nat × String, earlier ++ a :: b :: later =
      earlier ++ ([a] ++ ([b] ++ later)) := fun _ _ => rfl
  have hswap : ∀ before,
      ((ofList dialect [second]).template? type capacity).or
          (((ofList dialect [first]).template? type capacity).or before) =
        ((ofList dialect [first]).template? type capacity).or
          (((ofList dialect [second]).template? type capacity).or before) := by
    intro before
    rw [template?_ofList_single, template?_ofList_single]
    by_cases hfirst : (first.1, first.2.1) = (type, capacity)
    · have hsecond : (second.1, second.2.1) ≠ (type, capacity) := fun hsecond =>
        h (hfirst.trans hsecond.symm)
      rw [if_pos hfirst, if_neg hsecond, Option.none_or, Option.none_or]
    · rw [if_neg hfirst, Option.none_or, Option.none_or]
  simp only [happend, template?_ofList_append, Option.or_assoc]
  rw [hswap]

/-- A registration for another type changes nothing. -/
theorem alike_other (earlier later : History) {entry : DbType × Nat × String}
    (h : entry.1 ≠ type) :
    Alike (ofList dialect (earlier ++ entry :: later)) (ofList dialect (earlier ++ later))
      type := by
  refine alike_of_template? (dialect_ofList.trans dialect_ofList.symm) fun capacity => ?_
  have hnone : (ofList dialect [entry]).template? type capacity = none := by
    rw [template?_ofList_single, if_neg]
    intro hkey
    exact h (congrArg Prod.fst hkey)
  rw [List.append_cons, template?_ofList_append, template?_ofList_append, hnone,
    template?_ofList_append, Option.none_or]

end OfList

/-- After any registrations, a size takes the template last registered for the least
capacity that holds it, and fails where there is none; no size and types without sizes take
the one for capacity zero. Only the last registration for a type and a capacity counts. -/
theorem lookups_ofList (dialect : Dialect) (history : History) :
    (∀ type capacity template,
      (ofList dialect history).setSized type capacity template =
        ofList dialect (history ++ [(type, capacity, template)]) ∧
      (ofList dialect history).set type template =
        ofList dialect (history ++ [(type, 0, template)])) ∧
    (∀ type, (∃ capacity > 0, Registers history type capacity) →
      ServesSizes (ofList dialect history) history type) ∧
    (∀ type size precision,
      (size.getD 0 = 0 ∨ ∀ capacity, Registers history type capacity → capacity = 0) →
        ServesUnsized (ofList dialect history) history type size precision) ∧
    (∀ later first second, (first.1, first.2.1) ≠ (second.1, second.2.1) → ∀ type,
      Alike (ofList dialect (history ++ first :: second :: later))
        (ofList dialect (history ++ second :: first :: later)) type) ∧
    ∀ later entry type, entry.1 ≠ type →
      Alike (ofList dialect (history ++ entry :: later)) (ofList dialect (history ++ later))
        type :=
  ⟨fun _ _ _ => ⟨setSized_ofList, setSized_ofList⟩,
    fun _ hsized => servesSizes_ofList hsized,
    fun _ _ precision h => servesUnsized_ofList precision h,
    fun later _ _ h _ => alike_swap history later h,
    fun later _ _ h => alike_other history later h⟩

/-- Registrations of texts and amounts in any order, with one that is replaced later. -/
def textsAndAmounts : History :=
  [(.string, 65535, "CLOB"), (.decimal, 65, "DECIMAL($size,$precision)"),
    (.string, 0, "NVARCHAR(255)"), (.string, 65535, "TEXT"), (.string, 255, "NVARCHAR($size)"),
    (.int32, 0, "INTEGER")]

theorem lookups_ofList_textsAndAmounts :
    let m := ofList .mySql textsAndAmounts
    (∃ capacity > 0, Registers textsAndAmounts .string capacity) ∧
      m.get .string (some 256) none = .ok "TEXT" ∧
      m.get .decimal (some 10) (some 2) = .ok "DECIMAL(10,2)" ∧
      m.get .int32 (some 7) none = .ok "INTEGER" ∧
      IsLeast (holding textsAndAmounts .string 256) 65535 ∧
      ∃ template, RegistersLast textsAndAmounts .string 65535 template ∧
        "TEXT" = instantiate template 256 0 := by
  intro m
  have hsized : ∃ capacity > 0, Registers textsAndAmounts .string capacity :=
    ⟨255, by decide, "NVARCHAR($size)", by decide⟩
  have hserves := (lookups_ofList .mySql textsAndAmounts).2.1 .string hsized
  have hbucket : m.bucket .string 256 = .ok 65535 := by decide +kernel
  have hget : m.get .string (some 256) none = .ok "TEXT" := by decide +kernel
  have hleast := (hserves.bucket_iff 256 65535 (by decide)).1 hbucket
  obtain ⟨capacity, template, hcapacity, hlast, htext⟩ :=
    (hserves.get_iff 256 none "TEXT" (by decide)).1 hget
  refine ⟨hsized, hget, by decide +kernel, by decide +kernel, hleast, template, ?_, htext⟩
  rwa [hcapacity.unique hleast] at hlast

end SchemaChange.TypeMap
