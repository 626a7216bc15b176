import SchemaChange.Naming.Convention
import SchemaChange.Proofs.Text.Slice

/-!
# Names that are shortened

A name is shortened by byte positions: from the last position that leaves room for the digits a
loop steps back to one between characters. It is reached, at the front of the name if not before,
and all characters that have room are kept. A shortened name fits, so it is not shortened again.
-/
namespace SchemaChange

namespace Digest.Md5

/-- The digits of a digest are those of hexadecimal numbers in lower case. -/
theorem mem_digits_of_mem_hex {message : List UInt8} {c : Char} (h : c ∈ hex message) :
    c ∈ "0123456789abcdef".toList := by
  have hdigit : ∀ n < 16, Nat.digitChar n ∈ "0123456789abcdef".toList := by decide
  obtain ⟨b, -, hc⟩ := List.mem_flatMap.1 h
  have hb := b.toNat_lt
  simp only [List.mem_cons, List.not_mem_nil, or_false] at hc
  rcases hc with rfl | rfl
  · exact hdigit _ (by omega)
  · exact hdigit _ (by omega)

theorem utf8Size_of_mem_hex {message : List UInt8} {c : Char} (h : c ∈ hex message) :
    c.utf8Size = 1 := by
  have hdigits : "0123456789abcdef".toList.all (·.utf8Size == 1) = true := by decide
  exact beq_iff_eq.1 (List.all_eq_true.1 hdigits c (mem_digits_of_mem_hex h))

theorem byteLength_take_hex (count : Nat) (message : List UInt8) :
    Text.byteLength ((hex message).take count) = min count 32 := by
  have hsize : ∀ c ∈ (hex message).take count, c.utf8Size = 1 := fun _ hc =>
    utf8Size_of_mem_hex (List.mem_of_mem_take hc)
  rw [Text.byteLength_of_forall hsize, List.length_take, length_hex]

/-- The leading digits are a slice. -/
theorem slice_hex {count : Nat} (h : count ≤ 32) (message : List UInt8) :
    Text.slice (hex message) 0 count = pure ((hex message).take count) := by
  have hslice := Text.slice_zero_append ((hex message).take count) ((hex message).drop count)
  rwa [List.take_append_drop, byteLength_take_hex, Nat.min_eq_left h] at hslice

end Digest.Md5

namespace Naming

/-- One round of the search for a position between characters. In front of the first character
there is no step back. -/
def backStep (cs : List Char) (position : Nat) : Checked (Nat ⊕ Nat) :=
  if (Text.splitBytes? position cs).isSome then return .inl position
  else
    match position with
    | 0 => Checked.get? none
    | position + 1 => return .inr position

/-- Shorten a name by byte positions. -/
def truncateBytes (name : String) (limit : Nat) : Checked String :=
  let cs := name.toList
  if Text.byteLength cs ≤ limit then return name
  else
    let digest := Digest.Md5.hex name.toUTF8.toList
    if limit ≤ digestDigits + 1 then do
      return String.ofList (← Text.slice digest 0 (min limit (Text.byteLength digest)))
    else do
      let position ← Checked.loop (backStep cs) (limit - (digestDigits + 1))
      let kept ← Text.slice cs 0 position
      let digits ← Text.slice digest 0 digestDigits
      return String.ofList (kept ++ '_' :: digits)

/-- The search ends behind the characters that have room. -/
theorem loop_backStep (cs : List Char) (position : Nat) :
    Checked.loop (backStep cs) position =
      pure (Text.byteLength (Text.takeBytes position cs)) := by
  cases hsplit : Text.splitBytes? position cs with
  | some parts =>
      obtain ⟨rfl, rfl⟩ := Text.splitBytes?_eq_some_iff.1 hsplit
      have hstep : backStep (parts.1 ++ parts.2) (Text.byteLength parts.1) =
          pure (.inl (Text.byteLength parts.1)) := by
        rw [backStep.eq_def, hsplit]
        rfl
      rw [Checked.loop_done hstep, Text.takeBytes_byteLength]
  | none =>
      cases position with
      | zero => rw [Text.splitBytes?] at hsplit; cases hsplit
      | succ position =>
          have hstep : backStep cs (position + 1) = pure (.inr position) := by
            rw [backStep, hsplit]
            rfl
          rw [Checked.loop_next hstep, loop_backStep cs position, Text.takeBytes_succ hsplit]

theorem truncateBytes_eq (name : String) (limit : Nat) :
    truncateBytes name limit = pure (truncate name limit) := by
  rw [truncateBytes, truncate]
  split
  · rfl
  · split
    next hlimit =>
      have hdigest := Digest.Md5.byteLength_take_hex 32 name.toUTF8.toList
      rw [List.take_of_length_le (Digest.Md5.length_hex _).le] at hdigest
      have hcount : min limit (Text.byteLength (Digest.Md5.hex name.toUTF8.toList)) = limit := by
        rw [digestDigits] at hlimit
        omega
      dsimp only
      rw [hcount, Digest.Md5.slice_hex (by rw [digestDigits] at hlimit; omega), pure_bind]
    next hlimit =>
      have hkept := Text.slice_zero_append
        (Text.takeBytes (limit - (digestDigits + 1)) name.toList)
        (name.toList.drop (Text.takeBytes (limit - (digestDigits + 1)) name.toList).length)
      rw [Text.takeBytes_append_drop] at hkept
      rw [loop_backStep, pure_bind, hkept, pure_bind, Digest.Md5.slice_hex (by decide), pure_bind]

/-- A shortened form of a name: it fits, it is the name where that fits, and a longer name gives way
to all its leading characters that have room, an underscore and digits of the digest. Without room
for these it gives way to digits alone. -/
structure Shortens (limit : Nat) (name short : String) : Prop where
  fits : Text.byteLength short.toList ≤ limit
  whole : Text.byteLength name.toList ≤ limit → short = name
  cut : limit < Text.byteLength name.toList → digestDigits + 1 < limit →
    ∃ kept c rest, name.toList = kept ++ c :: rest ∧
      limit < Text.byteLength kept + c.utf8Size + (digestDigits + 1) ∧
      short.toList = kept ++ '_' :: (Digest.Md5.hex name.toUTF8.toList).take digestDigits
  digits : limit < Text.byteLength name.toList → limit ≤ digestDigits + 1 →
    short.toList = (Digest.Md5.hex name.toUTF8.toList).take limit

theorem byteLength_truncate_le (name : String) (limit : Nat) :
    Text.byteLength (truncate name limit).toList ≤ limit := by
  rw [truncate]
  split
  · assumption
  · split
    next hlimit =>
      rw [String.toList_ofList, Digest.Md5.byteLength_take_hex]
      omega
    next hlimit =>
      have hkept := Text.byteLength_takeBytes_le (limit - (digestDigits + 1)) name.toList
      have hunderscore : ('_' : Char).utf8Size = 1 := rfl
      rw [String.toList_ofList, Text.byteLength_append, Text.byteLength_cons,
        Digest.Md5.byteLength_take_hex, hunderscore]
      omega

theorem truncate_of_le {name : String} {limit : Nat} (h : Text.byteLength name.toList ≤ limit) :
    truncate name limit = name := if_pos h

theorem shortens_truncate (name : String) (limit : Nat) :
    Shortens limit name (truncate name limit) where
  fits := byteLength_truncate_le name limit
  whole := truncate_of_le
  cut hlonger hroom := by
    have hparts := Text.takeBytes_append_drop (limit - (digestDigits + 1)) name.toList
    have hfront := Text.byteLength_takeBytes_le (limit - (digestDigits + 1)) name.toList
    rw [truncate, if_neg (by omega), if_neg (by omega), String.toList_ofList]
    cases hrest : name.toList.drop
        (Text.takeBytes (limit - (digestDigits + 1)) name.toList).length with
    | nil =>
        rw [hrest, List.append_nil] at hparts
        rw [hparts] at hfront
        omega
    | cons c rest =>
        rw [hrest] at hparts
        have hnext := Text.lt_of_takeBytes hparts.symm
        exact ⟨_, c, rest, hparts.symm, by omega, rfl⟩
  digits hlonger hroom := by
    rw [truncate, if_neg (by omega), if_pos hroom, String.toList_ofList]

end Naming

end SchemaChange
