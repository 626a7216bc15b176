import SchemaChange.Proofs.Calendar.RoundTrip
import SchemaChange.Proofs.Sql.Written
import SchemaChange.Dialect.Known
import SchemaChange.Sql.Literal

/-!
# Times as literals

What is left of a date and time in its literal. A written day is read back whatever follows it, and
so are the fields of a fixed width and the fraction, so a literal holds all that its form has a
place for. One dialect writes date-times to the second and those with an offset to the microsecond;
all others write every digit.
-/
namespace SchemaChange

/-- The same day and the same second of it. -/
def DateTime.SameSecond (t u : DateTime) : Prop :=
  t.date = u.date ∧ t.hour = u.hour ∧ t.minute = u.minute ∧ t.second = u.second

/-- The same second and the same microsecond of it. -/
def DateTime.SameMicrosecond (t u : DateTime) : Prop :=
  t.SameSecond u ∧ t.nanosecond / 1000 = u.nanosecond / 1000

section Cancel

variable {t u : DateTime} {rest rest' : List Char}

/-- A field of a fixed width ends where it is full. -/
theorem padded_cancel {width m n : Nat} (hwidth : 0 < width) (hm : m < Nat.pow 10 width)
    (hn : n < Nat.pow 10 width) (h : padded width m ++ rest = padded width n ++ rest') :
    m = n ∧ rest = rest' := by
  have hlength : (padded width m).length = (padded width n).length := by
    rw [length_padded hwidth hm, length_padded hwidth hn]
  obtain ⟨hpadded, hrest⟩ := List.append_inj h hlength
  have hread := readDecimal?_padded width m
  rw [hpadded, readDecimal?_padded] at hread
  exact ⟨(Option.some.inj hread).symm, hrest⟩

theorem date_cancel {d e : Date} (h : d.text ++ rest = e.text ++ rest') :
    d = e ∧ rest = rest' := by
  have hread := Calendar.date_text d rest
  rw [h, Calendar.date_text] at hread
  obtain ⟨hdate, hrest⟩ := Prod.mk.inj (Option.some.inj hread)
  exact ⟨hdate.symm, hrest.symm⟩

/-- A time to the second ends where its last field does. -/
theorem textWith_cancel {between : Char}
    (h : t.textWith between ++ rest = u.textWith between ++ rest') :
    t.SameSecond u ∧ rest = rest' := by
  have htwo : ∀ {n}, n < 100 → n < Nat.pow 10 2 := fun h => h
  have hhour := t.hour_lt
  have hhour' := u.hour_lt
  have hminute := t.minute_lt
  have hminute' := u.minute_lt
  have hsecond := t.second_le
  have hsecond' := u.second_le
  simp only [DateTime.textWith, DateTime.clockText, List.append_assoc, List.cons_append] at h
  obtain ⟨hdate, h⟩ := date_cancel h
  obtain ⟨hhours, h⟩ := padded_cancel (by decide) (htwo (by omega)) (htwo (by omega))
    (List.cons.inj h).2
  obtain ⟨hminutes, h⟩ := padded_cancel (by decide) (htwo (by omega)) (htwo (by omega))
    (List.cons.inj h).2
  obtain ⟨hseconds, h⟩ := padded_cancel (by decide) (htwo (by omega)) (htwo (by omega))
    (List.cons.inj h).2
  exact ⟨⟨hdate, hhours, hminutes, hseconds⟩, h⟩

/-- The fraction of a second ends before anything that goes on with no digit. -/
theorem fractionText_cancel (hrest : Calendar.EndsTime rest) (hrest' : Calendar.EndsTime rest')
    (h : t.fractionText ++ rest = u.fractionText ++ rest') :
    t.nanosecond = u.nanosecond ∧ rest = rest' := by
  have hread := Calendar.fraction_fractionText t hrest
  rw [h, Calendar.fraction_fractionText u hrest'] at hread
  obtain ⟨hnanosecond, hbehind⟩ := Prod.mk.inj (Option.some.inj hread)
  exact ⟨hnanosecond.symm, hbehind.symm⟩

theorem microsecondText_cancel (h : t.microsecondText ++ rest = u.microsecondText ++ rest') :
    t.nanosecond / 1000 = u.nanosecond / 1000 ∧ rest = rest' := by
  have hbound : ∀ v : DateTime, v.nanosecond / 1000 < Nat.pow 10 6 := fun v => by
    have hlt := v.nanosecond_lt
    show v.nanosecond / 1000 < 1000000
    omega
  exact padded_cancel (by decide) (hbound t) (hbound u) (List.cons.inj h).2

/-- Offsets of less than a day are told apart. -/
theorem offsetText_injective {m n : Int} (hm : m.natAbs < 24 * 60) (hn : n.natAbs < 24 * 60)
    (h : offsetText m = offsetText n) : m = n := by
  have htwo : ∀ {n}, n < 100 → n < Nat.pow 10 2 := fun h => h
  obtain ⟨hsign, h⟩ := List.cons.inj h
  obtain ⟨hhours, h⟩ := padded_cancel (by decide) (htwo (by omega)) (htwo (by omega)) h
  have hlast : padded 2 (m.natAbs % 60) ++ [] = padded 2 (n.natAbs % 60) ++ [] := by
    rw [(List.cons.inj h).2]
  obtain ⟨hminutes, -⟩ := padded_cancel (by decide) (htwo (by omega)) (htwo (by omega)) hlast
  have habs : m.natAbs = n.natAbs := by omega
  by_cases hneg : m < 0 <;> by_cases hneg' : n < 0 <;> simp [hneg, hneg'] at hsign <;> omega

theorem DateTime.eq_iff_sameSecond :
    t = u ↔ t.SameSecond u ∧ t.nanosecond = u.nanosecond := by
  constructor
  · rintro rfl
    exact ⟨⟨rfl, rfl, rfl, rfl⟩, rfl⟩
  · rintro ⟨⟨hdate, hhour, hminute, hsecond⟩, hnanosecond⟩
    cases t
    cases u
    simp_all

/-- Times of the same second are written alike up to it. -/
theorem DateTime.SameSecond.textWith (h : t.SameSecond u) (between : Char) :
    t.textWith between = u.textWith between := by
  obtain ⟨hdate, hhour, hminute, hsecond⟩ := h
  rw [DateTime.textWith, DateTime.clockText, hdate, hhour, hminute, hsecond]
  rfl

theorem DateTime.textWith_inj {between : Char} :
    t.textWith between = u.textWith between ↔ t.SameSecond u := by
  refine ⟨fun h => ?_, fun h => h.textWith between⟩
  have hrest : t.textWith between ++ [] = u.textWith between ++ [] := by rw [h]
  exact (textWith_cancel hrest).1

/-- The full text of a time tells it from all others, whatever else follows. -/
theorem DateTime.fullText_inj {between : Char} (hrest : Calendar.EndsTime rest)
    (hrest' : Calendar.EndsTime rest') :
    t.textWith between ++ t.fractionText ++ rest = u.textWith between ++ u.fractionText ++ rest' ↔
      t = u ∧ rest = rest' := by
  constructor
  · intro h
    rw [List.append_assoc, List.append_assoc] at h
    obtain ⟨hsecond, h⟩ := textWith_cancel h
    obtain ⟨hnanosecond, h⟩ := fractionText_cancel hrest hrest' h
    exact ⟨DateTime.eq_iff_sameSecond.2 ⟨hsecond, hnanosecond⟩, h⟩
  · rintro ⟨rfl, rfl⟩
    rfl

end Cancel

section Literals

variable {cs ds : List Char}

theorem quotedCode_inj : Dialect.quotedCode cs = Dialect.quotedCode ds ↔ cs = ds := by
  rw [Dialect.quotedCode, Dialect.quotedCode, String.ofList_inj]
  simp

theorem around_inj (before after : String) {x y : String} :
    before ++ x ++ after = before ++ y ++ after ↔ x = y := by
  simp [← String.toList_inj]

theorem endsTime_offsetText (minutes : Int) : Calendar.EndsTime (offsetText minutes) := by
  intro c hc
  rw [offsetText, List.head?_cons] at hc
  split at hc <;> cases hc <;> decide

/-- In all dialects but one a literal holds every digit of a time. -/
theorem exists_between {d : Dialect} (hd : d ≠ .oracle) : ∃ between,
    (∀ t, d.dateTimeLiteral t = Dialect.quotedCode (t.textWith between ++ t.fractionText)) ∧
    ∀ t : OffsetDateTime, d.dateTimeOffsetLiteral t = Dialect.quotedCode
      (t.timeOfDay.textWith between ++ t.timeOfDay.fractionText ++ offsetText t.offset) := by
  cases d with
  | oracle => exact absurd rfl hd
  | sqlServer => exact ⟨'T', fun _ => rfl, fun _ => rfl⟩
  | postgres | mySql | sqlite | hana | snowflake => exact ⟨' ', fun _ => rfl, fun _ => rfl⟩

theorem dateTimeLiteral_inj (d : Dialect) (t u : DateTime) :
    d.dateTimeLiteral t = d.dateTimeLiteral u ↔
      if d = .oracle then t.SameSecond u else t = u := by
  split
  · rename_i hd
    subst hd
    rw [Dialect.dateTimeLiteral, Dialect.dateTimeLiteral, around_inj, quotedCode_inj,
      DateTime.textWith_inj]
  · rename_i hd
    obtain ⟨between, htext, -⟩ := exists_between hd
    have hfull : t.textWith between ++ t.fractionText ++ [] =
        u.textWith between ++ u.fractionText ++ [] ↔ t = u ∧ ([] : List Char) = [] :=
      DateTime.fullText_inj Calendar.endsTime_nil Calendar.endsTime_nil
    rw [htext, htext, quotedCode_inj]
    simpa using hfull

theorem dateTimeOffsetLiteral_inj (d : Dialect) (t u : OffsetDateTime) :
    d.dateTimeOffsetLiteral t = d.dateTimeOffsetLiteral u ↔ t.offset = u.offset ∧
      if d = .oracle then t.timeOfDay.SameMicrosecond u.timeOfDay
      else t.timeOfDay = u.timeOfDay := by
  have hoffset : offsetText t.offset = offsetText u.offset ↔ t.offset = u.offset :=
    ⟨offsetText_injective t.offset_lt u.offset_lt, fun h => by rw [h]⟩
  split
  · rename_i hd
    subst hd
    have htext : ∀ t : OffsetDateTime, Dialect.oracle.dateTimeOffsetLiteral t =
        "to_timestamp_tz(" ++ Dialect.quotedCode (t.timeOfDay.textWith ' ' ++
          t.timeOfDay.microsecondText ++ ' ' :: offsetText t.offset) ++
          ", 'YYYY-MM-DD HH24:MI:SS.FF6 TZH:TZM')" := fun _ => rfl
    rw [htext, htext, around_inj, quotedCode_inj]
    constructor
    · intro h
      rw [List.append_assoc, List.append_assoc] at h
      obtain ⟨hsecond, h⟩ := textWith_cancel h
      obtain ⟨hmicrosecond, h⟩ := microsecondText_cancel h
      exact ⟨hoffset.1 (List.cons.inj h).2, hsecond, hmicrosecond⟩
    · rintro ⟨ho, hsecond, hmicrosecond⟩
      rw [hsecond.textWith, ho, DateTime.microsecondText, DateTime.microsecondText, hmicrosecond]
  · rename_i hd
    obtain ⟨between, -, htext⟩ := exists_between hd
    rw [htext, htext, quotedCode_inj, DateTime.fullText_inj (endsTime_offsetText _)
      (endsTime_offsetText _), hoffset, and_comm]

end Literals

/-- Every time has a literal in every dialect, and two times have the same one only if they are the
same. Oracle alone tells no fractions of a second apart, and with an offset no fractions of a
microsecond. -/
theorem written_times_iff (d : Dialect) (q : Quoter) :
    (∀ t u : DateTime, ∃ x y, (Literal.sql d (.dateTime t)).map (Sql.write q) = .ok x ∧
      (Literal.sql d (.dateTime u)).map (Sql.write q) = .ok y ∧
      (x = y ↔ if d = .oracle then t.SameSecond u else t = u)) ∧
    ∀ t u : OffsetDateTime, ∃ x y,
      (Literal.sql d (.dateTimeOffset t)).map (Sql.write q) = .ok x ∧
      (Literal.sql d (.dateTimeOffset u)).map (Sql.write q) = .ok y ∧
      (x = y ↔ t.offset = u.offset ∧
        if d = .oracle then t.timeOfDay.SameMicrosecond u.timeOfDay
        else t.timeOfDay = u.timeOfDay) := by
  have hwrite : ∀ sql : String, Except.map (ε := Error) (Sql.write q) (.ok [.code sql]) = .ok sql :=
    fun sql => congrArg Except.ok (Sql.write_code q sql)
  exact ⟨fun t u => ⟨_, _, hwrite _, hwrite _, dateTimeLiteral_inj d t u⟩,
    fun t u => ⟨_, _, hwrite _, hwrite _, dateTimeOffsetLiteral_inj d t u⟩⟩

/-- Half a second is lost in one literal, and the last nanosecond in the other. -/
theorem written_times_alike :
    let time (nanosecond : Nat) (h : nanosecond < 1000000000) : DateTime :=
      ⟨⟨2024, 3, 9, by decide⟩, 14, 5, 0, nanosecond, by decide, by decide, by decide, h⟩
    let write (v : Literal) := (Literal.sql .oracle v).map
      (Sql.write (Profile.of .oracle .strict {}).quoter)
    let whole := time 0 (by decide)
    let half := time 500000000 (by decide)
    let next := time 1 (by decide)
    whole ≠ half ∧ write (.dateTime whole) = write (.dateTime half) ∧ whole ≠ next ∧
      write (.dateTimeOffset ⟨whole, 60, by decide⟩) =
        write (.dateTimeOffset ⟨next, 60, by decide⟩) := by
  intro time write whole half next
  have hdiffer : ∀ {t u : DateTime}, t.nanosecond ≠ u.nanosecond → t ≠ u := fun h he =>
    h (congrArg DateTime.nanosecond he)
  have htime : Dialect.oracle.dateTimeLiteral whole = Dialect.oracle.dateTimeLiteral half :=
    (dateTimeLiteral_inj .oracle whole half).2 ⟨rfl, rfl, rfl, rfl⟩
  have hoffset : Dialect.oracle.dateTimeOffsetLiteral ⟨whole, 60, by decide⟩ =
      Dialect.oracle.dateTimeOffsetLiteral ⟨next, 60, by decide⟩ :=
    (dateTimeOffsetLiteral_inj .oracle _ _).2 ⟨rfl, ⟨rfl, rfl, rfl, rfl⟩, by decide⟩
  exact ⟨hdiffer (by decide),
    congrArg (fun sql => Except.map (Sql.write _) (.ok [.code sql])) htime,
    hdiffer (by decide),
    congrArg (fun sql => Except.map (Sql.write _) (.ok [.code sql])) hoffset⟩

end SchemaChange
