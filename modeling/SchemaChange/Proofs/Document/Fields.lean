import SchemaChange.Document.Fields
import SchemaChange.Proofs.Json.RoundTrip

/-!
# Fields are read back

What the readers of fields make of written ones: a record finds each of its fields by name,
an absent field stays apart from a present one, and integers, enumerations and lists return
as they were. Then the other direction: a field that has been read was read from a value.
-/
namespace SchemaChange.Document

open Json (Value Readable)

variable {α : Type}

/-- A record that names each field once is complete. -/
theorem record?_of_nodup {members : Members} (h : (members.map (·.1)).Nodup)
    (known : List String) : record? known (.object members) = some members := by
  have hcount : ∀ name, (members.filter (·.1 == name)).length ≤ 1 := by
    intro name
    have hmap : (members.filter (·.1 == name)).length = (members.map (·.1)).count name := by
      rw [← List.countP_eq_length_filter, List.count, List.countP_map]
      rfl
    rw [hmap]
    exact List.nodup_iff_count.1 h name
  have hall : (known.all fun name => (members.filter (·.1 == name)).length ≤ 1) = true :=
    List.all_eq_true.2 fun name _ => decide_eq_true (hcount name)
  rw [record?, if_pos hall]

namespace Members

/-- An optional field that is there: null, or a value to be read. -/
def nullable? (decode : Decoder α) : Decoder (Option α)
  | .null => some none
  | v => (decode v).map some

@[simp] theorem required?_cons (key : String) (v : Value) (ms : Members) (name : String)
    (decode : Decoder α) : required? ((key, v) :: ms) name decode =
      if key = name then decode v else required? ms name decode := by
  by_cases h : key = name <;> simp [required?, find?, h]

@[simp] theorem optional?_cons (key : String) (v : Value) (ms : Members) (name : String)
    (decode : Decoder α) : optional? ((key, v) :: ms) name decode =
      if key = name then nullable? decode v else optional? ms name decode := by
  by_cases h : key = name
  · simp only [optional?, find?, h, beq_self_eq_true, List.find?_cons_of_pos, Option.map_some,
      if_true]
    cases v <;> rfl
  · simp [optional?, find?, h]

@[simp] theorem defaulted?_cons (key : String) (v : Value) (ms : Members) (name : String)
    (absent : α) (decode : Decoder α) : defaulted? ((key, v) :: ms) name absent decode =
      if key = name then decode v else defaulted? ms name absent decode := by
  by_cases h : key = name <;> simp [defaulted?, find?, h]

/-- An absent field is written as null, and every value as something else. -/
theorem nullable?_ofOption {decode : Decoder α} {encode : α → Value} {o : Option α}
    (hne : ∀ a, encode a ≠ .null) (h : ∀ a, o = some a → decode (encode a) = some a) :
    nullable? decode (ofOption encode o) = some o := by
  cases o with
  | none => rfl
  | some a =>
      have hread : nullable? decode (encode a) = (decode (encode a)).map some := by
        cases hencode : encode a with
        | null => exact absurd hencode (hne a)
        | _ => rfl
      rw [ofOption, hread, h a rfl]
      rfl

end Members

section Scalars

@[simp] theorem text?_string (s : String) : text? (.string s) = some s := rfl

@[simp] theorem bool?_bool (b : Bool) : bool? (.bool b) = some b := rfl

theorem integer?_ofInt {low high i : Int} (hlow : low ≤ i) (hhigh : i ≤ high) :
    integer? low high (ofInt i) = some i := if_pos ⟨hlow, hhigh⟩

@[simp] theorem int64?_ofInt (i : Int64) : int64? (ofInt i.toInt) = some i := by
  have hlow : Int64.minValue.toInt ≤ i.toInt := Int64.le_toInt i
  have hhigh : i.toInt ≤ Int64.maxValue.toInt := Int64.toInt_le i
  rw [int64?, integer?_ofInt hlow hhigh, Option.map_some, Int64.ofInt_toInt]

@[simp] theorem uint64?_ofInt (n : UInt64) : uint64? (ofInt n.toNat) = some n := by
  have hlt := n.toNat_lt_size
  rw [uint64?, integer?_ofInt (by omega) (by omega), Option.map_some, Int.toNat_natCast,
    UInt64.ofNat_toNat]

@[simp] theorem uint32?_ofInt (n : UInt32) : uint32? (ofInt n.toNat) = some n := by
  have hlt := n.toNat_lt_size
  rw [uint32?, integer?_ofInt (by omega) (by omega), Option.map_some, Int.toNat_natCast,
    UInt32.ofNat_toNat]

@[simp] theorem byte?_ofInt (n : UInt8) : byte? (ofInt n.toNat) = some n := by
  have hlt := n.toNat_lt_size
  have hsize : UInt8.size = 256 := rfl
  rw [byte?, integer?_ofInt (by omega) (by omega), Option.map_some, Int.toNat_natCast,
    UInt8.ofNat_toNat]

theorem choice?_string (ofCode? : String → Option α) (name : String) :
    choice? ofCode? (.string name) = ofCode? name := rfl

/-- A list is read back if each of its items is. -/
theorem list?_map {decode : Decoder α} {encode : α → Value} {as : List α}
    (h : ∀ a ∈ as, decode (encode a) = some a) :
    list? decode (.array (as.map encode)) = some as := by
  induction as with
  | nil => rfl
  | cons a as ih =>
      have has := ih fun b hb => h b (List.mem_cons_of_mem _ hb)
      simp only [list?] at has
      simp [list?, h a (List.mem_cons_self ..), has]

@[simp] theorem list?_ofTexts (texts : List String) :
    list? text? (ofTexts texts) = some texts := list?_map fun _ _ => rfl

end Scalars

section Readability

variable {depth : Nat}

@[simp] theorem readable_string (s : String) : Readable depth (.string s) := .string s

@[simp] theorem readable_bool (b : Bool) : Readable depth (.bool b) := .bool b

@[simp] theorem readable_int64 (i : Int64) : Readable depth (ofInt i.toInt) := by
  have hlow := Int64.le_toInt i
  have hhigh := Int64.toInt_le i
  have hmax : Int64.maxValue.toInt = 9223372036854775807 := rfl
  have hsize : UInt64.size = 18446744073709551616 := rfl
  exact .int hlow (by omega)

/-- A number that fits sixty-four bits without a sign. -/
theorem readable_natCast {n : Nat} (h : n < UInt64.size) : Readable depth (ofInt n) := by
  have hmin : Int64.minValue.toInt = -9223372036854775808 := rfl
  exact .int (by omega) (by omega)

@[simp] theorem readable_uint64 (n : UInt64) : Readable depth (ofInt n.toNat) :=
  readable_natCast n.toNat_lt_size

@[simp] theorem readable_uint32 (n : UInt32) : Readable depth (ofInt n.toNat) :=
  readable_natCast (Nat.lt_trans n.toNat_lt_size (by decide))

@[simp] theorem readable_byte (n : UInt8) : Readable depth (ofInt n.toNat) :=
  readable_natCast (Nat.lt_trans n.toNat_lt_size (by decide))

@[simp] theorem readable_ofOption {encode : α → Value} {o : Option α}
    (h : ∀ a, o = some a → Readable depth (encode a)) : Readable depth (ofOption encode o) := by
  cases o with
  | none => exact .null
  | some a => exact h a rfl

@[simp] theorem readable_ofTexts (texts : List String) : Readable (depth + 1) (ofTexts texts) := by
  refine .array fun item hitem => ?_
  obtain ⟨text, -, rfl⟩ := List.mem_map.1 hitem
  exact .string text

theorem readable_array {encode : α → Value} {as : List α}
    (h : ∀ a ∈ as, Readable depth (encode a)) :
    Readable (depth + 1) (.array (as.map encode)) := by
  refine .array fun item hitem => ?_
  obtain ⟨a, ha, rfl⟩ := List.mem_map.1 hitem
  exact h a ha

end Readability

section Sources

variable {decode : Decoder α} {ms : Members} {name : String}

/-- A value that a decoder reads from some value. -/
def Decoded (decode : Decoder α) (a : α) : Prop := ∃ v, decode v = some a

theorem decoded_of_required? {a : α} (h : ms.required? name decode = some a) :
    Decoded decode a := by
  obtain ⟨v, -, hv⟩ := Option.bind_eq_some_iff.1 h
  exact ⟨v, hv⟩

theorem decoded_of_optional? {o : Option α} (h : ms.optional? name decode = some o) {a : α}
    (ha : a ∈ o.toList) : Decoded decode a := by
  rw [Option.mem_toList] at ha
  subst ha
  unfold Members.optional? at h
  split at h
  · cases h
  · cases h
  · rename_i v _ _
    obtain ⟨b, hb, hsome⟩ := Option.map_eq_some_iff.1 h
    cases hsome
    exact ⟨v, hb⟩

theorem eq_or_decoded_of_defaulted? {a absent : α}
    (h : ms.defaulted? name absent decode = some a) : a = absent ∨ Decoded decode a := by
  unfold Members.defaulted? at h
  split at h
  · cases h
    exact .inl rfl
  · exact .inr ⟨_, h⟩

theorem decoded_of_list? {v : Value} {as : List α} (h : list? decode v = some as) :
    ∀ a ∈ as, Decoded decode a := by
  cases v with
  | array items =>
      simp only [list?] at h
      induction items generalizing as with
      | nil =>
          cases h
          simp
      | cons item items ih =>
          simp only [List.mapM_cons, Option.pure_def, Option.bind_eq_bind,
            Option.bind_eq_some_iff] at h
          obtain ⟨a, ha, rest, hrest, hcons⟩ := h
          cases hcons
          exact List.forall_mem_cons.2 ⟨⟨item, ha⟩, ih hrest⟩
  | _ => cases h

end Sources

end SchemaChange.Document
