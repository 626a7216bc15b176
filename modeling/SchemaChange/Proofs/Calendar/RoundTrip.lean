import SchemaChange.Calendar.Reader
import SchemaChange.Proofs.Text.Digit

/-!
# Dates and times are read back

What the readers of dates, times and offsets make of a written one, whatever follows it.
The offset of a time that has been read leaves its universal time on a day of the calendar.
-/
namespace SchemaChange.Calendar

variable {α β : Type}

/-- A reader in sequence goes on where the first has stopped. -/
theorem bind_of_eq {reader : Reader α} {cs rest : List Char} {a : α}
    (h : reader cs = some (a, rest)) (next : α → Reader β) :
    (reader >>= next) cs = next a rest := by
  have hbind : (reader >>= next) cs = (reader cs).bind fun p => next p.1 p.2 := rfl
  rw [hbind, h]
  rfl

/-- A value that needs no reading leaves the text as it is. -/
theorem lift_bind_of_eq {x : Option α} {a : α} (h : x = some a) (next : α → Reader β)
    (cs : List Char) : ((liftM x : Reader α) >>= next) cs = next a cs := by
  subst h
  rfl

/-- Looking at the text leaves it as it is. -/
theorem get_eq (cs : List Char) : (get : Reader (List Char)) cs = some (cs, cs) := rfl

section Fields

/-- The first character of a text, if there is one, is no digit. -/
def NoDigit (cs : List Char) : Prop := ∀ c, cs.head? = some c → c.isDigit = false

theorem noDigit_cons {c : Char} (h : c.isDigit = false) (cs : List Char) :
    NoDigit (c :: cs) := by
  simpa [NoDigit] using h

theorem blanks_cons {c : Char} (h : Text.isBlank c = false) (cs : List Char) :
    blanks (c :: cs) = some ((), c :: cs) := by
  have htrim : Text.trimStart (c :: cs) = c :: cs := by
    rw [Text.trimStart, List.dropWhile_cons_of_neg (by simp [h])]
  have hblanks : blanks (c :: cs) = some ((), Text.trimStart (c :: cs)) := rfl
  rw [hblanks, htrim]

theorem blanks_padded (width n : Nat) (rest : List Char) :
    blanks (padded width n ++ rest) = some ((), padded width n ++ rest) := by
  obtain ⟨c, cs, hpadded, hc⟩ := exists_padded width n
  rw [hpadded]
  exact blanks_cons (Text.isBlank_of_isDigit hc) _

/-- A run of digits is consumed if it has all the digits asked for or no digit follows. -/
theorem digits_append {most : Nat} {run rest : List Char} (hne : run ≠ [])
    (hrun : ∀ c ∈ run, c.isDigit = true)
    (hend : run.length = most ∨ run.length ≤ most ∧ NoDigit rest) :
    digits most (run ++ rest) = some (run, rest) := by
  have hle : run.length ≤ most := by omega
  have hstop : (rest.take (most - run.length)).takeWhile Char.isDigit = [] := by
    rcases hend with rfl | ⟨_, hrest⟩
    · simp
    · cases rest with
      | nil => simp
      | cons c rest => cases most - run.length <;> simp [hrest c rfl]
  have htake : ((run ++ rest).take most).takeWhile (fun c => (Text.digitValue? c).isSome) =
      run := by
    simp only [Text.isSome_digitValue?]
    rw [List.take_append, List.take_of_length_le hle, List.takeWhile_append_of_pos hrun, hstop,
      List.append_nil]
  rw [digits, htake, List.drop_left, if_neg (by simpa using hne)]

theorem number_padded {n : Nat} (h : n < 100) (rest : List Char) :
    number 2 (padded 2 n ++ rest) = some (n, rest) := by
  have hdigits : digits 2 (padded 2 n ++ rest) = some (padded 2 n, rest) :=
    digits_append (padded_ne_nil 2 n) (fun c => isDigit_padded)
      (.inl (length_padded (by decide) h))
  rw [number, bind_of_eq (blanks_padded 2 n rest), bind_of_eq hdigits, readDecimal?_padded]
  rfl

theorem separator_cons {c : Char} (h : Text.isBlank c = false) (rest : List Char) :
    separator c (c :: rest) = some ((), rest) := by
  rw [separator, bind_of_eq (blanks_cons h rest), mark]
  simp

/-- The digits behind the sign of a year. -/
theorem digits_padded {width n most : Nat} {rest : List Char} (hrest : NoDigit rest)
    (hmost : (padded width n).length ≤ most) :
    digits most (padded width n ++ rest) = some (padded width n, rest) :=
  digits_append (padded_ne_nil width n) (fun _ => isDigit_padded) (.inr ⟨hmost, hrest⟩)

theorem year_minus (cs : List Char) : year ('-' :: cs) =
    (do return -((← Text.readDecimal? (← digits (cs.length + 1))) : Int) : Reader Int) cs := rfl

theorem year_plus (cs : List Char) : year ('+' :: cs) =
    (do return ((← Text.readDecimal? (← digits (cs.length + 1))) : Int) : Reader Int) cs := rfl

theorem year_padded (width n : Nat) (rest : List Char) : year (padded width n ++ rest) =
    (do return ((← Text.readDecimal? (← digits 4)) : Int) : Reader Int)
      (padded width n ++ rest) := by
  obtain ⟨c, cs, hpadded, hc⟩ := exists_padded width n
  rw [year, bind_of_eq (blanks_padded width n rest), bind_of_eq (get_eq _)]
  apply congrFun
  rw [hpadded, List.cons_append]
  split <;> rename_i heq
  · injection heq with hhead
    subst hhead
    cases hc
  · injection heq with hhead
    subst hhead
    cases hc
  · rfl

/-- A year of four digits, or of any number of digits behind a sign. -/
theorem year_yearText (y : Int) {rest : List Char} (hrest : NoDigit rest) :
    year (yearText y ++ rest) = some (y, rest) := by
  have hread := readDecimal?_padded 4 y.natAbs
  by_cases hplain : 0 ≤ y ∧ y ≤ 9999
  · have hy : (y.natAbs : Int) = y := by omega
    have hlength : (padded 4 y.natAbs).length = 4 :=
      length_padded (by decide) (by show y.natAbs < 10000; omega)
    rw [yearText, if_pos hplain, year_padded,
      bind_of_eq (digits_padded hrest (Nat.le_of_eq hlength)), lift_bind_of_eq hread, hy]
    rfl
  · rw [yearText, if_neg hplain]
    split
    · have hy : -(y.natAbs : Int) = y := by omega
      rw [List.cons_append, year_minus, bind_of_eq (digits_padded hrest (by simp; omega)),
        lift_bind_of_eq hread, hy]
      rfl
    · have hy : (y.natAbs : Int) = y := by omega
      rw [List.cons_append, year_plus, bind_of_eq (digits_padded hrest (by simp; omega)),
        lift_bind_of_eq hread, hy]
      rfl

theorem daysIn_le (year : Int) (month : Nat) : daysIn year month ≤ 31 := by
  unfold daysIn
  split
  · split <;> decide
  all_goals decide

/-- A written day is read. -/
theorem date_text (d : Date) (rest : List Char) :
    date (d.text ++ rest) = some (d, rest) := by
  obtain ⟨y, m, day, hdate⟩ := d
  have hvalid := hdate
  obtain ⟨-, -, -, hmonth, -, hday⟩ := hvalid
  have hdays := daysIn_le y m
  have hparts : Date.ofParts? y m day = some ⟨y, m, day, hdate⟩ := by
    rw [Date.ofParts?, dif_pos hdate]
  have hhyphen : ∀ cs, separator '-' ('-' :: cs) = some ((), cs) := separator_cons rfl
  simp only [Date.text, List.append_assoc, List.cons_append]
  rw [date, bind_of_eq (year_yearText y (noDigit_cons rfl _)), bind_of_eq (hhyphen _),
    bind_of_eq (number_padded (by omega) _), bind_of_eq (hhyphen _),
    bind_of_eq (number_padded (by omega) _), hparts]
  rfl

end Fields

section Times

/-- What can stand behind a time: nothing that a time can go on with. -/
def EndsTime (cs : List Char) : Prop :=
  ∀ c, cs.head? = some c → c.isDigit = false ∧ c ≠ '.' ∧ Text.isBlank c = false

theorem EndsTime.noDigit {cs : List Char} (h : EndsTime cs) : NoDigit cs :=
  fun c hc => (h c hc).1

theorem EndsTime.blanks {cs : List Char} (h : EndsTime cs) : blanks cs = some ((), cs) := by
  cases cs with
  | nil => rfl
  | cons c cs => exact blanks_cons (h c rfl).2.2 cs

theorem EndsTime.fraction {cs : List Char} (h : EndsTime cs) : fraction cs = some (0, cs) := by
  have hnone : (pure 0 : Reader Nat) cs = some (0, cs) := rfl
  rw [Calendar.fraction, bind_of_eq (get_eq cs), ← hnone]
  apply congrFun
  cases cs with
  | nil => rfl
  | cons c cs =>
      split
      · rename_i heq
        injection heq with hhead
        exact absurd hhead (h c rfl).2.1
      · rfl

theorem fraction_point (cs : List Char) : fraction ('.' :: cs) = (do
    let run ← digits 9
    modify fun cs => cs.dropWhile fun c => (Text.digitValue? c).isSome
    return (← Text.readDecimal? run) * Nat.pow 10 (9 - run.length) : Reader Nat) cs := rfl

/-- The digits behind a point count from the left. -/
theorem fraction_padded (width : Nat) {n : Nat} {rest : List Char} (hpos : 0 < width)
    (hle : width ≤ 9) (hn : n < Nat.pow 10 width) (hrest : NoDigit rest) :
    fraction ('.' :: (padded width n ++ rest)) = some (n * Nat.pow 10 (9 - width), rest) := by
  have hlength := length_padded hpos hn
  have hdigits := digits_padded hrest (Nat.le_trans (Nat.le_of_eq hlength) hle)
  have hdrop : rest.dropWhile (fun c => (Text.digitValue? c).isSome) = rest := by
    cases rest with
    | nil => rfl
    | cons c rest => simp [Text.isSome_digitValue?, hrest c rfl]
  have hmodify : (modify fun cs => cs.dropWhile fun c => (Text.digitValue? c).isSome :
      Reader Unit) rest = some ((), rest) := congrArg (fun cs => some ((), cs)) hdrop
  rw [fraction_point, bind_of_eq hdigits, bind_of_eq hmodify,
    lift_bind_of_eq (readDecimal?_padded width n), hlength]
  rfl

theorem fraction_fractionText (t : DateTime) {rest : List Char} (hrest : EndsTime rest) :
    fraction (t.fractionText ++ rest) = some (t.nanosecond, rest) := by
  have hlt := t.nanosecond_lt
  have hmillis : t.nanosecond / 1000000 < 1000 := by omega
  have hmicros : t.nanosecond / 1000 < 1000000 := by omega
  unfold DateTime.fractionText
  split
  · rename_i hzero
    rw [hzero]
    exact hrest.fraction
  · split
    · have hvalue : t.nanosecond / 1000000 * 1000000 = t.nanosecond := by omega
      rw [List.cons_append, fraction_padded 3 (by decide) (by decide) hmillis hrest.noDigit]
      exact congrArg (fun n => some (n, rest)) hvalue
    · split
      · have hvalue : t.nanosecond / 1000 * 1000 = t.nanosecond := by omega
        rw [List.cons_append, fraction_padded 6 (by decide) (by decide) hmicros hrest.noDigit]
        exact congrArg (fun n => some (n, rest)) hvalue
      · have hvalue : t.nanosecond * 1 = t.nanosecond := by omega
        rw [List.cons_append, fraction_padded 9 (by decide) (by decide) hlt hrest.noDigit]
        exact congrArg (fun n => some (n, rest)) hvalue

/-- A written time of day is read, down to its last digit. -/
theorem clock_text (t : DateTime) {rest : List Char} (hrest : EndsTime rest) :
    clock t.date (t.clockText ++ (t.fractionText ++ rest)) = some (t, rest) := by
  have hhour := t.hour_lt
  have hminute := t.minute_lt
  have hsecond := t.second_le
  have hcolon : ∀ cs, separator ':' (':' :: cs) = some ((), cs) := separator_cons rfl
  have hparts : DateTime.ofParts? t.date t.hour t.minute t.second t.nanosecond = some t := by
    rw [DateTime.ofParts?, dif_pos ⟨hhour, hminute, hsecond, t.nanosecond_lt⟩]
  simp only [DateTime.clockText, List.append_assoc, List.cons_append]
  rw [clock, bind_of_eq (number_padded (by omega) _), bind_of_eq (hcolon _),
    bind_of_eq (number_padded (by omega) _), bind_of_eq (hcolon _),
    bind_of_eq (number_padded (by omega) _), bind_of_eq (fraction_fractionText t hrest),
    bind_of_eq hrest.blanks, hparts]
  rfl

theorem padded_two : ∀ n < 100,
    padded 2 n = [Nat.digitChar (n / 10), Nat.digitChar (n % 10)] := by decide

theorem twoDigits_padded {n : Nat} (h : n < 100) (rest : List Char) :
    twoDigits (padded 2 n ++ rest) = some (n, rest) := by
  have htens := Text.digitValue?_digitChar (n := n / 10) (by omega)
  have hones := Text.digitValue?_digitChar (n := n % 10) (by omega)
  have hvalue : 10 * (n / 10) + n % 10 = n := by omega
  simp [padded_two n h, twoDigits, htens, hones, hvalue]

/-- The reader of an offset behind its sign. -/
def signed (sign : Int) : Reader Int := do
  let hours ← twoDigits
  modify fun cs => cs.dropWhile fun c => c == ':' || Text.isBlank c
  let minutes ← twoDigits
  if minutes < 60 then return sign * (60 * hours + minutes : Nat) else failure

theorem offset_plus (a b : Char) (rest : List Char) :
    offset ('+' :: a :: b :: rest) = signed 1 (a :: b :: rest) := rfl

theorem offset_minus (a b : Char) (rest : List Char) :
    offset ('-' :: a :: b :: rest) = signed (-1) (a :: b :: rest) := rfl

theorem signed_padded (sign : Int) {minutes : Nat} (h : minutes < 24 * 60) :
    signed sign (padded 2 (minutes / 60) ++ ':' :: padded 2 (minutes % 60)) =
      some (sign * minutes, []) := by
  have hmodify : ∀ cs, (modify fun cs => cs.dropWhile fun c => c == ':' || Text.isBlank c :
      Reader Unit) cs = some ((), cs.dropWhile fun c => c == ':' || Text.isBlank c) :=
    fun _ => rfl
  have hstop : ∀ n, (':' :: padded 2 n).dropWhile (fun c => c == ':' || Text.isBlank c) =
      padded 2 n ++ [] := by
    intro n
    rw [List.dropWhile_cons_of_pos (by simp), List.append_nil]
    obtain ⟨c, cs, hpadded, hc⟩ := exists_padded 2 n
    have hblank := Text.isBlank_of_isDigit hc
    have hcolon : c ≠ ':' := by
      rintro rfl
      cases hc
    rw [hpadded, List.dropWhile_cons_of_neg (by simp [hblank, hcolon])]
  have hvalue : 60 * (minutes / 60) + minutes % 60 = minutes := by omega
  rw [signed, bind_of_eq (twoDigits_padded (by omega) _), bind_of_eq (hmodify _), hstop,
    bind_of_eq (twoDigits_padded (by omega) _), if_pos (by omega), hvalue]
  rfl

/-- A written offset is read to the end of the text. -/
theorem offset_zoneText (t : OffsetDateTime) : offset t.zoneText = some (t.offset, []) := by
  have hlt := t.offset_lt
  unfold OffsetDateTime.zoneText
  split
  · rename_i hzero
    rw [hzero]
    rfl
  · have hread := fun sign => signed_padded sign hlt
    rw [padded_two _ (by omega)] at hread
    unfold offsetText
    rw [padded_two (t.offset.natAbs / 60) (by omega)]
    split
    · have hvalue : -1 * (t.offset.natAbs : Int) = t.offset := by omega
      simp only [List.cons_append, List.nil_append] at hread ⊢
      rw [offset_minus, hread, hvalue]
    · have hvalue : 1 * (t.offset.natAbs : Int) = t.offset := by omega
      simp only [List.cons_append, List.nil_append] at hread ⊢
      rw [offset_plus, hread, hvalue]

end Times

section Texts

theorem run?_ofList {reader : Reader α} {cs : List Char} {a : α}
    (h : reader cs = some (a, [])) : run? reader (String.ofList cs) = some a := by
  rw [run?, String.toList_ofList, h]
  rfl

theorem readDate?_text (d : Date) : readDate? (String.ofList d.text) = some d := by
  have hread := date_text d []
  rw [List.append_nil] at hread
  exact run?_ofList hread

theorem endsTime_nil : EndsTime [] := by simp [EndsTime]

theorem readDateTime?_text (t : DateTime) :
    readDateTime? (String.ofList (t.textWith 'T' ++ t.fractionText)) = some t := by
  have hclock := clock_text t endsTime_nil
  rw [List.append_nil] at hclock
  refine run?_ofList ?_
  simp only [DateTime.textWith, List.append_assoc, List.cons_append]
  rw [bind_of_eq (date_text t.date _), bind_of_eq (separator_cons rfl _), hclock]

theorem endsTime_zoneText (t : OffsetDateTime) : EndsTime t.zoneText := by
  intro c hc
  unfold OffsetDateTime.zoneText offsetText at hc
  split at hc
  · cases hc
    decide
  · split at hc
    · cases hc
      decide
    · cases hc
      decide

/-- The reader of the time and the offset behind a day. -/
def clockAndOffset (d : Date) : Reader OffsetDateTime := do
  let t ← clock d
  OffsetDateTime.ofParts? t (← offset)

/-- A time with an offset is read if its universal time falls on a day of the calendar. -/
theorem readOffsetDateTime?_text {t : OffsetDateTime}
    (h : OffsetDateTime.ofParts? t.timeOfDay t.offset = some t) :
    readOffsetDateTime? (String.ofList
      (t.timeOfDay.textWith 'T' ++ t.timeOfDay.fractionText ++ t.zoneText)) = some t := by
  have hread : clockAndOffset t.timeOfDay.date (t.timeOfDay.clockText ++
      (t.timeOfDay.fractionText ++ t.zoneText)) = some (t, []) := by
    rw [clockAndOffset, bind_of_eq (clock_text t.timeOfDay (endsTime_zoneText t)),
      bind_of_eq (offset_zoneText t), h]
    rfl
  refine run?_ofList ?_
  simp only [DateTime.textWith, List.append_assoc, List.cons_append]
  rw [bind_of_eq (date_text t.timeOfDay.date _), bind_of_eq (get_eq _)]
  exact hread

/-- A sequence reads only what its first reader begins. -/
theorem exists_of_bind_eq {reader : Reader α} {next : α → Reader β} {cs : List Char}
    {r : β × List Char} (h : (reader >>= next) cs = some r) :
    ∃ a rest, reader cs = some (a, rest) ∧ next a rest = some r := by
  have hbind : (reader >>= next) cs = (reader cs).bind fun p => next p.1 p.2 := rfl
  rw [hbind] at h
  obtain ⟨p, hp, hnext⟩ := Option.bind_eq_some_iff.1 h
  exact ⟨p.1, p.2, hp, hnext⟩

theorem ofParts?_self {u : DateTime} {o : Int} {t : OffsetDateTime}
    (h : OffsetDateTime.ofParts? u o = some t) :
    OffsetDateTime.ofParts? t.timeOfDay t.offset = some t := by
  have hself : t.timeOfDay = u ∧ t.offset = o := by
    simp only [OffsetDateTime.ofParts?] at h
    split at h
    · cases h
    · split at h
      · cases h
        exact ⟨rfl, rfl⟩
      · cases h
  rw [hself.1, hself.2, h]

theorem ofParts?_of_clockAndOffset {d : Date} {cs : List Char} {r : OffsetDateTime × List Char}
    (h : clockAndOffset d cs = some r) :
    OffsetDateTime.ofParts? r.1.timeOfDay r.1.offset = some r.1 := by
  obtain ⟨u, afterClock, -, hnext⟩ := exists_of_bind_eq h
  obtain ⟨o, afterOffset, -, hlift⟩ := exists_of_bind_eq hnext
  cases hparts : OffsetDateTime.ofParts? u o with
  | none =>
      rw [hparts] at hlift
      cases hlift
  | some t =>
      rw [hparts] at hlift
      cases hlift
      exact ofParts?_self hparts

/-- A time with an offset that has been read is made of its parts. -/
theorem ofParts?_of_readOffsetDateTime? {s : String} {t : OffsetDateTime}
    (h : readOffsetDateTime? s = some t) :
    OffsetDateTime.ofParts? t.timeOfDay t.offset = some t := by
  unfold readOffsetDateTime? run? at h
  split at h
  · rename_i a rest heq
    split at h
    · cases h
      obtain ⟨d, afterDate, -, hnext⟩ := exists_of_bind_eq heq
      obtain ⟨cs, _, hget, htime⟩ := exists_of_bind_eq hnext
      cases hget
      dsimp only at htime
      cases afterDate with
      | nil => cases htime
      | cons c cs =>
          by_cases hc : c = 'T' ∨ c = 't' ∨ c = ' '
          · simp only [if_pos hc] at htime
            exact ofParts?_of_clockAndOffset (r := (t, rest)) htime
          · simp only [if_neg hc] at htime
            cases htime
    · cases h
  · cases h

end Texts

end SchemaChange.Calendar
