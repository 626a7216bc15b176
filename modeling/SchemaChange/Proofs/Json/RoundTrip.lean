import SchemaChange.Proofs.Json.Scalar

/-!
# JSON values are read back

A value whose numbers are integers of sixty-four bits and that nests no deeper than
documents may is read from its own text, and nothing of the text is left.
-/
namespace SchemaChange.Json

/-- A value that can be read from its text within a depth: its numbers are integers that fit
sixty-four bits, signed or not, and its arrays and objects nest no deeper. -/
inductive Readable : Nat → Value → Prop where
  | null {depth : Nat} : Readable depth .null
  | bool {depth : Nat} (b : Bool) : Readable depth (.bool b)
  | int {depth : Nat} {i : Int} (low : Int64.minValue.toInt ≤ i)
      (high : i < UInt64.size) : Readable depth (.number (.int i))
  | string {depth : Nat} (s : String) : Readable depth (.string s)
  | array {depth : Nat} {items : List Value} (each : ∀ item ∈ items, Readable depth item) :
      Readable (depth + 1) (.array items)
  | object {depth : Nat} {members : List (String × Value)}
      (each : ∀ member ∈ members, Readable depth member.2) :
      Readable (depth + 1) (.object members)

/-- A value is read from its text with fuel for each of its characters. -/
def Reads (depth : Nat) (v : Value) : Prop :=
  ∀ fuel rest, v.write.length ≤ fuel → Follows rest →
    readValue? fuel depth (v.write ++ rest) = some (v, rest)

section Heads

theorem exists_write_int (i : Int) : ∃ c cs, (Number.int i).write = c :: cs ∧
    (c = '-' ∨ c.isDigit = true) := by
  by_cases hi : i < 0
  · exact ⟨'-', _, by rw [Number.write, if_pos hi], .inl rfl⟩
  · obtain ⟨c, cs, hdigits, hc⟩ := exists_toDigits i.natAbs
    exact ⟨c, cs, by rw [Number.write, if_neg hi, hdigits], .inr hc⟩

theorem skipBlanks_digit {c : Char} (h : c = '-' ∨ c.isDigit = true) (cs : List Char) :
    skipBlanks (c :: cs) = c :: cs := by
  have hc : (c == ' ' || c == '\n' || c == '\t' || c == '\r') = false := by
    rcases h with rfl | h
    · rfl
    · have hne : ∀ d : Char, d.isDigit = false → (c == d) = false := by
        intro d hd
        rw [beq_eq_false_iff_ne]
        rintro rfl
        exact absurd h (by simp [hd])
      simp [hne ' ' rfl, hne '\n' rfl, hne '\t' rfl, hne '\r' rfl]
  rw [skipBlanks, List.dropWhile_cons_of_neg (by simp [hc])]

/-- A written value begins with neither a blank nor a closing bracket. -/
theorem Readable.exists_write {depth : Nat} {v : Value} (h : Readable depth v) :
    ∃ c cs, v.write = c :: cs ∧ c ≠ ']' ∧ ∀ rest, skipBlanks (c :: rest) = c :: rest := by
  cases h with
  | null => exact ⟨_, _, rfl, by decide, fun _ => rfl⟩
  | bool b => cases b <;> exact ⟨_, _, rfl, by decide, fun _ => rfl⟩
  | @int _ i _ _ =>
      obtain ⟨c, cs, hwrite, hc⟩ := exists_write_int i
      refine ⟨c, cs, hwrite, ?_, skipBlanks_digit hc⟩
      rintro rfl
      rcases hc with hc | hc <;> cases hc
  | string s => exact ⟨_, _, rfl, by decide, fun _ => rfl⟩
  | array => exact ⟨_, _, rfl, by decide, fun _ => rfl⟩
  | object => exact ⟨_, _, rfl, by decide, fun _ => rfl⟩

end Heads

section Values

theorem reads_int {depth : Nat} {i : Int} (hlow : Int64.minValue.toInt ≤ i)
    (hhigh : i < UInt64.size) : Reads depth (.number (.int i)) := by
  intro fuel rest hfuel hrest
  obtain ⟨c, cs, hwrite, hc⟩ := exists_write_int i
  have hread := readNumber?_write hlow hhigh hrest
  rw [Value.write, hwrite] at hfuel ⊢
  rw [hwrite] at hread
  obtain ⟨fuel, rfl⟩ : ∃ k, fuel = k + 1 :=
    ⟨fuel - 1, by simp only [List.length_cons] at hfuel; omega⟩
  rw [List.cons_append] at hread ⊢
  rw [readValue?.eq_def]
  simp only [skipBlanks_digit hc]
  split <;> rename_i heq
  any_goals
    injection heq with hhead
    subst hhead
    rcases hc with hc | hc <;> cases hc
  rw [hread]
  rfl

theorem reads_string {depth : Nat} (s : String) : Reads depth (.string s) := by
  intro fuel rest hfuel hrest
  have hlength := length_le_flatMap_escape s.toList
  simp only [Value.write, writeString, List.length_cons, List.length_append] at hfuel
  obtain ⟨fuel, rfl⟩ : ∃ k, fuel = k + 1 := ⟨fuel - 1, by omega⟩
  have hroom : s.toList.length < fuel := by omega
  have hread := readString?_write s.toList hroom rest
  have hskip : ∀ cs, skipBlanks ('"' :: cs) = '"' :: cs := fun _ => rfl
  simp only [Value.write, writeString, List.cons_append, List.append_assoc, List.nil_append,
    readValue?, hskip, hread, Option.bind_eq_bind, Option.bind_some, String.ofList_toList]
  rfl

/-- The items of an array are read up to its closing bracket. -/
theorem readItems?_write {depth : Nat} {items : List Value} (hne : items ≠ [])
    (h : ∀ item ∈ items, Reads depth item) {fuel : Nat}
    (hfuel : (writeItems items).length < fuel) (rest : List Char) :
    readItems? fuel depth (writeItems items ++ ']' :: rest) = some (items, rest) := by
  induction items generalizing fuel with
  | nil => exact absurd rfl hne
  | cons item items ih =>
      obtain ⟨fuel, rfl⟩ : ∃ k, fuel = k + 1 := ⟨fuel - 1, by omega⟩
      have hitem := h item (List.mem_cons_self ..)
      cases items with
      | nil =>
          rw [writeItems] at hfuel ⊢
          have hread := hitem fuel (']' :: rest) (by omega) (follows_cons (by simp) rest)
          rw [readItems?, hread]
          rfl
      | cons next items =>
          simp only [writeItems, List.length_append, List.length_cons] at hfuel
          have hread := hitem fuel (',' :: (writeItems (next :: items) ++ ']' :: rest))
            (by omega) (follows_cons (by simp) _)
          have hroom : (writeItems (next :: items)).length < fuel := by omega
          have hothers := ih (by simp) (fun item hmem => h item (List.mem_cons_of_mem _ hmem))
            hroom
          have hskip : ∀ cs, skipBlanks (',' :: cs) = ',' :: cs := fun _ => rfl
          rw [writeItems.eq_3 _ _ (List.cons_ne_nil next items), List.append_assoc,
            List.cons_append, readItems?, hread]
          simp only [Option.bind_eq_bind, Option.bind_some, hskip, hothers]
          rfl

/-- The reader of one member of an object. -/
def readMember? (fuel depth : Nat) (cs : List Char) :
    Option ((String × Value) × List Char) := do
  let rest ← expect? ['"'] (skipBlanks cs)
  let (key, rest) ← readString? fuel rest
  let rest ← expect? [':'] (skipBlanks rest)
  let (value, rest) ← readValue? fuel depth rest
  return ((String.ofList key, value), rest)

section Members

variable {fuel depth : Nat} {cs : List Char} {member : String × Value}

theorem readMember?_eq_some {after : List Char}
    (h : readMember? fuel depth cs = some (member, after)) :
    ∃ first key second, expect? ['"'] (skipBlanks cs) = some first ∧
      readString? fuel first = some (key, second) ∧
      ∃ third, expect? [':'] (skipBlanks second) = some third ∧
        readValue? fuel depth third = some (member.2, after) ∧
        String.ofList key = member.1 := by
  simp only [readMember?, Option.bind_eq_bind, Option.bind_eq_some_iff, Option.pure_def,
    Option.some.injEq, Prod.mk.injEq] at h
  obtain ⟨first, hfirst, ⟨key, second⟩, hkey, third, hthird, ⟨value, _⟩, hvalue, hmember,
    rfl⟩ := h
  subst hmember
  exact ⟨first, key, second, hfirst, hkey, third, hthird, hvalue, rfl⟩

/-- A member before a closing brace is the last one. -/
theorem readMembers?_last {rest : List Char}
    (h : readMember? fuel depth cs = some (member, '\x7d' :: rest)) :
    readMembers? (fuel + 1) depth cs = some ([member], rest) := by
  obtain ⟨first, key, second, hfirst, hkey, third, hthird, hvalue, hmember⟩ :=
    readMember?_eq_some h
  have hskip : skipBlanks ('\x7d' :: rest) = '\x7d' :: rest := rfl
  simp only [readMembers?, hfirst, hkey, hthird, hvalue, hmember, hskip, Option.bind_eq_bind,
    Option.bind_some, Option.pure_def]

/-- Behind a comma there are more members. -/
theorem readMembers?_more {next rest : List Char} {members : List (String × Value)}
    (h : readMember? fuel depth cs = some (member, ',' :: next))
    (hnext : readMembers? fuel depth next = some (members, rest)) :
    readMembers? (fuel + 1) depth cs = some (member :: members, rest) := by
  obtain ⟨first, key, second, hfirst, hkey, third, hthird, hvalue, hmember⟩ :=
    readMember?_eq_some h
  have hskip : skipBlanks (',' :: next) = ',' :: next := rfl
  simp only [readMembers?, hfirst, hkey, hthird, hvalue, hmember, hskip, hnext,
    Option.bind_eq_bind, Option.bind_some, Option.pure_def]

theorem readMember?_write {key : String} {v : Value} (h : Reads depth v)
    (hfuel : (writeString key ++ ':' :: v.write).length ≤ fuel) {rest : List Char}
    (hrest : Follows rest) :
    readMember? fuel depth (writeString key ++ ':' :: (v.write ++ rest)) =
      some ((key, v), rest) := by
  have hlength := length_le_flatMap_escape key.toList
  simp only [writeString, List.length_append, List.length_cons] at hfuel
  have hroom : key.toList.length < fuel := by omega
  have hkey := readString?_write key.toList hroom (':' :: (v.write ++ rest))
  have hvalue := h fuel rest (by omega) hrest
  have hquote : ∀ cs, expect? ['"'] (skipBlanks ('"' :: cs)) = some cs := fun _ => rfl
  have hcolon : ∀ cs, expect? [':'] (skipBlanks (':' :: cs)) = some cs := fun _ => rfl
  rw [readMember?, writeString, List.cons_append, List.append_assoc, List.singleton_append,
    hquote]
  simp only [Option.bind_eq_bind, Option.bind_some, Option.pure_def, hkey, hcolon, hvalue,
    String.ofList_toList]

end Members

/-- The members of an object are read up to its closing brace. -/
theorem readMembers?_write {depth : Nat} {members : List (String × Value)}
    (hne : members ≠ []) (h : ∀ member ∈ members, Reads depth member.2) {fuel : Nat}
    (hfuel : (writeMembers members).length < fuel) (rest : List Char) :
    readMembers? fuel depth (writeMembers members ++ '\x7d' :: rest) =
      some (members, rest) := by
  induction members generalizing fuel with
  | nil => exact absurd rfl hne
  | cons member members ih =>
      obtain ⟨key, v⟩ := member
      obtain ⟨fuel, rfl⟩ : ∃ k, fuel = k + 1 := ⟨fuel - 1, by omega⟩
      have hmember : Reads depth v := h (key, v) (List.mem_cons_self ..)
      cases members with
      | nil =>
          rw [writeMembers] at hfuel ⊢
          rw [List.append_assoc, List.cons_append]
          exact readMembers?_last
            (readMember?_write hmember (by omega) (follows_cons (by simp) rest))
      | cons next members =>
          rw [writeMembers.eq_3 _ _ _ (List.cons_ne_nil next members)] at hfuel ⊢
          rw [List.append_assoc, List.cons_append, List.append_assoc, List.cons_append]
          simp only [List.length_append, List.length_cons] at hfuel
          have hroom : (writeMembers (next :: members)).length < fuel := by omega
          have hothers := ih (by simp)
            (fun member hmem => h member (List.mem_cons_of_mem _ hmem)) hroom
          have hlength : (writeString key ++ ':' :: v.write).length ≤ fuel := by
            simp only [List.length_append, List.length_cons]
            omega
          exact readMembers?_more
            (readMember?_write hmember hlength (follows_cons (by simp) _)) hothers

theorem reads_array {depth : Nat} {items : List Value}
    (hread : ∀ item ∈ items, Readable depth item) (h : ∀ item ∈ items, Reads depth item) :
    Reads (depth + 1) (.array items) := by
  intro fuel rest hfuel _
  simp only [Value.write, List.length_cons, List.length_append] at hfuel
  obtain ⟨fuel, rfl⟩ : ∃ k, fuel = k + 1 := ⟨fuel - 1, by omega⟩
  have hskip : ∀ cs, skipBlanks ('[' :: cs) = '[' :: cs := fun _ => rfl
  rw [Value.write, List.cons_append, List.append_assoc, List.singleton_append, readValue?,
    hskip]
  cases items with
  | nil => rfl
  | cons item items =>
      have hroom : (writeItems (item :: items)).length < fuel := by omega
      have hitems := readItems?_write (List.cons_ne_nil item items) h hroom rest
      obtain ⟨c, cs, hwrite, hc, hfirst⟩ :=
        (hread item (List.mem_cons_self ..)).exists_write
      obtain ⟨others, hothers⟩ : ∃ others, writeItems (item :: items) = c :: others := by
        cases items <;> simp [writeItems, hwrite]
      rw [hothers, List.cons_append] at hitems ⊢
      simp only [hfirst]
      split
      · rename_i heq
        injection heq with hhead
        exact absurd hhead hc
      · rw [hitems]
        rfl

theorem reads_object {depth : Nat} {members : List (String × Value)}
    (h : ∀ member ∈ members, Reads depth member.2) : Reads (depth + 1) (.object members) := by
  intro fuel rest hfuel _
  simp only [Value.write, List.length_cons, List.length_append] at hfuel
  obtain ⟨fuel, rfl⟩ : ∃ k, fuel = k + 1 := ⟨fuel - 1, by omega⟩
  have hskip : ∀ cs, skipBlanks ('\x7b' :: cs) = '\x7b' :: cs := fun _ => rfl
  rw [Value.write, List.cons_append, List.append_assoc, List.singleton_append, readValue?,
    hskip]
  cases members with
  | nil => rfl
  | cons member members =>
      have hroom : (writeMembers (member :: members)).length < fuel := by omega
      have hmembers := readMembers?_write (List.cons_ne_nil member members) h hroom rest
      obtain ⟨others, hothers⟩ :
          ∃ others, writeMembers (member :: members) = '"' :: others := by
        cases members <;> simp [writeMembers, writeString]
      have hquote : ∀ cs, skipBlanks ('"' :: cs) = '"' :: cs := fun _ => rfl
      rw [hothers, List.cons_append] at hmembers ⊢
      simp only [hquote, hmembers]
      rfl

/-- A readable value is read from its text, whatever of an array or object follows. -/
theorem Readable.reads {depth : Nat} {v : Value} (h : Readable depth v) : Reads depth v := by
  induction h with
  | null =>
      intro fuel rest hfuel _
      obtain ⟨fuel, rfl⟩ : ∃ k, fuel = k + 1 :=
        ⟨fuel - 1, by simp only [Value.write, List.length_cons] at hfuel; omega⟩
      rfl
  | bool b =>
      intro fuel rest hfuel _
      cases b <;>
      · obtain ⟨fuel, rfl⟩ : ∃ k, fuel = k + 1 :=
          ⟨fuel - 1, by simp only [Value.write, List.length_cons] at hfuel; omega⟩
        rfl
  | int low high => exact reads_int low high
  | string s => exact reads_string s
  | array each ih => exact reads_array each ih
  | object each ih => exact reads_object ih

end Values

/-- A readable value is read from its whole text. -/
theorem Readable.readWithin?_text {depth : Nat} {v : Value} (h : Readable depth v) :
    readWithin? depth v.text = some v := by
  have hread := h.reads (v.write.length + 1) [] (by omega) follows_nil
  rw [List.append_nil] at hread
  simp only [readWithin?, Value.text, String.toList_ofList, hread]
  rfl

/-- A value that nests no deeper than documents may is read from its text. -/
theorem Readable.read?_text {v : Value} (h : Readable maxDepth v) : read? v.text = some v :=
  h.readWithin?_text

end SchemaChange.Json
