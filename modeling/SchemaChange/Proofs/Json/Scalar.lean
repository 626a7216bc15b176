import Mathlib.Tactic.SplitIfs
import SchemaChange.Json.Reader
import SchemaChange.Json.Writer
import SchemaChange.Proofs.Text.Digit

/-!
# JSON strings and integers are read back

What is read from a written string, escapes included, and from a written integer that fits
sixty-four bits, whatever of an array or object follows.
-/
namespace SchemaChange.Json

section Strings

/-- The four digits of the escape of a control character. -/
theorem readHex?_control {n : Nat} (h : n < 0x20) (rest : List Char) :
    readHex? ('0' :: '0' :: Nat.digitChar (n / 16) :: Nat.digitChar (n % 16) :: rest) =
      some (n, rest) := by
  have hzero : Text.hexValue? '0' = some 0 := rfl
  have hhigh := Text.hexValue?_digitChar (n / 16) (by omega)
  have hlow := Text.hexValue?_digitChar (n % 16) (by omega)
  have hvalue : n / 16 * 16 + n % 16 = n := by omega
  simp [readHex?, hzero, hhigh, hlow, hvalue]

theorem readUnicode?_control {c : Char} (h : c.toNat < 0x20) (rest : List Char) :
    readUnicode? ('0' :: '0' :: Nat.digitChar (c.toNat / 16) :: Nat.digitChar (c.toNat % 16) ::
      rest) = some (c, rest) := by
  have hhigh : ¬ (0xD800 ≤ c.toNat ∧ c.toNat < 0xDC00) := by omega
  have hlow : ¬ (0xDC00 ≤ c.toNat ∧ c.toNat < 0xE000) := by omega
  rw [readUnicode?, readHex?_control h]
  simp [hhigh, hlow]

/-- The escape of a character is read as the character. -/
theorem readString?_escape (c : Char) (fuel : Nat) (rest : List Char) :
    readString? (fuel + 1) (escape c ++ rest) =
      (readString? fuel rest).map fun (cs, rest) => (c :: cs, rest) := by
  have hbind : ∀ x : Option (List Char × List Char), (do
      let (cs, rest) ← x
      return (c :: cs, rest)) = x.map fun (cs, rest) => (c :: cs, rest) := by
    intro x
    cases x <;> rfl
  unfold escape
  split_ifs with hquote hslash hback hfeed hline hreturn htab hcontrol
  · subst hquote
    exact hbind _
  · subst hslash
    exact hbind _
  · subst hback
    exact hbind _
  · subst hfeed
    exact hbind _
  · subst hline
    exact hbind _
  · subst hreturn
    exact hbind _
  · subst htab
    exact hbind _
  · have hcode := readUnicode?_control hcontrol rest
    simp only [List.cons_append, List.nil_append, readString?, hcode]
    exact hbind _
  · have hplain : readString? (fuel + 1) (c :: rest) = if c.toNat < 0x20 ∨ c = '\\' then none
        else do
          let (cs, rest) ← readString? fuel rest
          return (c :: cs, rest) := by
      rw [readString?.eq_def]
      split <;> simp_all
    rw [List.singleton_append, hplain, if_neg (not_or.2 ⟨hcontrol, hslash⟩)]
    exact hbind _

/-- A written string is read up to its closing quote. -/
theorem readString?_write (cs : List Char) {fuel : Nat} (h : cs.length < fuel)
    (rest : List Char) :
    readString? fuel (cs.flatMap escape ++ '"' :: rest) = some (cs, rest) := by
  induction cs generalizing fuel with
  | nil =>
      obtain ⟨fuel, rfl⟩ : ∃ k, fuel = k + 1 := ⟨fuel - 1, by omega⟩
      rfl
  | cons c cs ih =>
      obtain ⟨fuel, rfl⟩ : ∃ k, fuel = k + 1 := ⟨fuel - 1, by omega⟩
      rw [List.flatMap_cons, List.append_assoc, readString?_escape,
        ih (by simpa using h)]
      rfl

theorem length_le_flatMap_escape (cs : List Char) : cs.length ≤ (cs.flatMap escape).length := by
  have hpos : ∀ c, 1 ≤ (escape c).length := by
    intro c
    unfold escape
    split_ifs <;> simp
  induction cs with
  | nil => simp
  | cons c cs ih =>
      have := hpos c
      simp only [List.flatMap_cons, List.length_append, List.length_cons]
      omega

end Strings

section Integers

/-- What can stand behind a value: nothing, or what goes on with or ends an array or object. -/
def Follows (rest : List Char) : Prop := ∀ c, rest.head? = some c → c = ',' ∨ c = ']' ∨ c = '\x7d'

theorem follows_nil : Follows [] := by simp [Follows]

theorem follows_cons {c : Char} (h : c = ',' ∨ c = ']' ∨ c = '\x7d') (rest : List Char) :
    Follows (c :: rest) := by simpa [Follows] using h

/-- The digits of a written number, as numbers. -/
def places (n : Nat) : List Nat := (Nat.toDigits 10 n).filterMap Text.digitValue?

theorem places_of_lt {n : Nat} (h : n < 10) : places n = [n] := by
  rw [places, Nat.toDigits_of_lt_base h, List.filterMap_cons, Text.digitValue?_digitChar h]
  rfl

theorem places_of_le {n : Nat} (h : 10 ≤ n) : places n = places (n / 10) ++ [n % 10] := by
  have hlast : Text.digitValue? (Nat.digitChar (n % 10)) = some (n % 10) :=
    Text.digitValue?_digitChar (Nat.mod_lt n (by decide))
  rw [places, Nat.toDigits_of_base_le (by decide) h, List.filterMap_append, places,
    List.filterMap_cons, hlast]
  rfl

/-- The digits of a number do not begin with zero unless it is zero. -/
theorem exists_places (n : Nat) : ∃ first others, places n = first :: others ∧
    (first = 0 → n = 0) := by
  induction n using Nat.strongRecOn with
  | ind n ih =>
      by_cases hn : n < 10
      · exact ⟨n, [], places_of_lt hn, id⟩
      · obtain ⟨first, others, hplaces, hfirst⟩ := ih (n / 10) (by omega)
        refine ⟨first, others ++ [n % 10], ?_, fun h => ?_⟩
        · rw [places_of_le (by omega), hplaces, List.cons_append]
        · have := hfirst h
          omega

/-- All digits of a number below `2 ^ 64` find room. -/
theorem foldl_wholeDigit {n : Nat} (h : n < UInt64.size) :
    (places n).foldl Scaled.wholeDigit ⟨0, 0, true⟩ = ⟨n, 0, true⟩ := by
  induction n using Nat.strongRecOn with
  | ind n ih =>
      by_cases hn : n < 10
      · rw [places_of_lt hn]
        simp [Scaled.wholeDigit, Scaled.fits, h]
      · have hvalue : 10 * (n / 10) + n % 10 = n := by omega
        rw [places_of_le (by omega), List.foldl_append, ih (n / 10) (by omega) (by omega)]
        simp [Scaled.wholeDigit, Scaled.fits, hvalue, h]

theorem takeDigits_append {run rest : List Char} (hrun : ∀ c ∈ run, c.isDigit = true)
    (hrest : ∀ c, rest.head? = some c → c.isDigit = false) :
    takeDigits (run ++ rest) = (run.filterMap Text.digitValue?, rest) := by
  have htake : (run ++ rest).takeWhile (fun c => (Text.digitValue? c).isSome) = run := by
    simp only [Text.isSome_digitValue?]
    rw [List.takeWhile_append_of_pos hrun]
    cases rest with
    | nil => simp
    | cons c rest => simp [hrest c rfl]
  rw [takeDigits, htake, List.drop_left]

theorem Follows.isDigit {rest : List Char} (h : Follows rest) {c : Char}
    (hc : rest.head? = some c) : c.isDigit = false := by
  rcases h c hc with rfl | rfl | rfl <;> rfl

theorem Follows.takeFraction? {rest : List Char} (h : Follows rest) :
    takeFraction? rest = some (none, rest) := by
  cases rest with
  | nil => rfl
  | cons c rest => rcases h c rfl with rfl | rfl | rfl <;> rfl

theorem Follows.takeExponent? {rest : List Char} (h : Follows rest) :
    takeExponent? rest = some (none, rest) := by
  cases rest with
  | nil => rfl
  | cons c rest => rcases h c rfl with rfl | rfl | rfl <;> rfl

theorem readUnsigned?_toDigits (negative : Bool) {n : Nat} (h : n < UInt64.size)
    {rest : List Char} (hrest : Follows rest) :
    readUnsigned? negative (Nat.toDigits 10 n ++ rest) =
      (ofParts? negative ⟨n, 0, true⟩ none none).map (·, rest) := by
  have hdigits : takeDigits (Nat.toDigits 10 n ++ rest) = (places n, rest) :=
    takeDigits_append (fun c => Nat.isDigit_of_mem_toDigits (by decide) (by decide))
      fun c => hrest.isDigit
  obtain ⟨first, others, hplaces, hfirst⟩ := exists_places n
  have hwhole := foldl_wholeDigit h
  rw [hplaces] at hdigits hwhole
  have hbind : ∀ x : Option Number, (do return (← x, rest)) = x.map (·, rest) := by
    intro x
    cases x <;> rfl
  have hzero : ∀ d ds, first :: others ≠ 0 :: d :: ds := by
    intro d ds heq
    obtain ⟨rfl, rfl⟩ := List.cons.inj heq
    rw [hfirst rfl, places_of_lt (by decide)] at hplaces
    cases hplaces
  rw [readUnsigned?, hdigits]
  dsimp only
  split
  · rename_i heq
    cases heq
  · rename_i d ds heq
    exact absurd heq (hzero d ds)
  · rw [hwhole, hrest.takeFraction?]
    simp only [Option.bind_eq_bind, Option.bind_some, hrest.takeExponent?]
    exact hbind _

theorem ofParts?_positive (n : Nat) : ofParts? false ⟨n, 0, true⟩ none none = some (.int n) := rfl

theorem ofParts?_negative {n : Nat} (hpos : 0 < n) (hle : n ≤ Int64.minValue.toInt.natAbs) :
    ofParts? true ⟨n, 0, true⟩ none none = some (.int (-(n : Int))) := by
  have hsmall : (true && decide (0 < n) && decide (n ≤ Int64.minValue.toInt.natAbs)) = true := by
    rw [decide_eq_true hpos, decide_eq_true hle]
    rfl
  rw [ofParts?, if_neg (by simp)]
  exact if_pos hsmall

/-- An integer that fits sixty-four bits, signed or not, is read from its text. -/
theorem readNumber?_write {i : Int} (hlow : Int64.minValue.toInt ≤ i) (hhigh : i < UInt64.size)
    {rest : List Char} (hrest : Follows rest) :
    readNumber? ((Number.int i).write ++ rest) = some (.int i, rest) := by
  have hmin : Int64.minValue.toInt = -9223372036854775808 := rfl
  have hsize : UInt64.size = 18446744073709551616 := rfl
  have hroom : i.natAbs < UInt64.size := by omega
  by_cases hi : i < 0
  · have hvalue : -(i.natAbs : Int) = i := by omega
    rw [Number.write, if_pos hi, List.cons_append, readNumber?,
      readUnsigned?_toDigits true hroom hrest, ofParts?_negative (by omega) (by omega), hvalue]
    rfl
  · have hvalue : (i.natAbs : Int) = i := by omega
    have hsign : readNumber? (Nat.toDigits 10 i.natAbs ++ rest) =
        readUnsigned? false (Nat.toDigits 10 i.natAbs ++ rest) := by
      obtain ⟨c, cs, hdigits, hc⟩ := exists_toDigits i.natAbs
      rw [hdigits, List.cons_append, readNumber?.eq_def]
      split
      · rename_i heq
        cases heq
        cases hc
      · rfl
    rw [Number.write, if_neg hi, hsign, readUnsigned?_toDigits false hroom hrest,
      ofParts?_positive, hvalue]
    rfl

end Integers

end SchemaChange.Json
