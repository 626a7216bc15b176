import SchemaChange.Proofs.Checked
import SchemaChange.Text.Search
import SchemaChange.Text.Utf8

/-!
# Slices of texts

A part of a text told by two positions in bytes. A position that lies inside a character or
behind the end of the text gives no slice, and neither do two positions in the wrong order. Between
two texts that make up a whole lies a position, so each of them is a slice of it. The characters
that fit into some bytes end at the last such position that is not too far.
-/
namespace SchemaChange.Text

/-- The text before a position in bytes and the text from it on, unless the position lies inside
a character or behind the end. -/
def splitBytes? : Nat → List Char → Option (List Char × List Char)
  | 0, cs => some ([], cs)
  | _ + 1, [] => none
  | n + 1, c :: cs =>
      if c.utf8Size ≤ n + 1 then
        (splitBytes? (n + 1 - c.utf8Size) cs).map fun (before, behind) => (c :: before, behind)
      else none

/-- The text from one position in bytes to another. -/
def slice? (cs : List Char) (start stop : Nat) : Option (List Char) := do
  let (_, behind) ← splitBytes? start cs
  if start ≤ stop then (splitBytes? (stop - start) behind).map Prod.fst else none

/-- The text from one position in bytes to another, taken with a check. -/
def slice (cs : List Char) (start stop : Nat) : Checked (List Char) :=
  Checked.get? (slice? cs start stop)

/-- The position in bytes at which a character stands first. -/
def position? (mark : Char) (cs : List Char) : Option Nat :=
  (find? [mark] cs).map fun n => byteLength (cs.take n)

section Slices

variable {cs before part behind : List Char} {n start stop : Nat}

theorem splitBytes?_append (before behind : List Char) :
    splitBytes? (byteLength before) (before ++ behind) = some (before, behind) := by
  induction before with
  | nil => rw [byteLength_nil, splitBytes?, List.nil_append]
  | cons c before ih =>
      have hsize := c.utf8Size_pos
      obtain ⟨k, hk⟩ : ∃ k, byteLength (c :: before) = k + 1 :=
        ⟨byteLength (c :: before) - 1, by rw [byteLength_cons]; omega⟩
      have hrest : k + 1 - c.utf8Size = byteLength before := by
        rw [byteLength_cons] at hk
        omega
      rw [hk, List.cons_append, splitBytes?, hrest, ih, if_pos]
      · rfl
      · rw [byteLength_cons] at hk
        omega

/-- A text is parted only between characters. -/
theorem splitBytes?_eq_some_iff :
    splitBytes? n cs = some (before, behind) ↔ cs = before ++ behind ∧ n = byteLength before := by
  constructor
  · intro h
    fun_induction splitBytes? n cs generalizing before behind with
    | case1 cs =>
        cases h
        exact ⟨rfl, rfl⟩
    | case2 n => cases h
    | case3 n c cs hsize ih =>
        obtain ⟨⟨rest, behind'⟩, hrest, he⟩ := Option.map_eq_some_iff.1 h
        cases he
        obtain ⟨rfl, hlength⟩ := ih hrest
        refine ⟨rfl, ?_⟩
        rw [byteLength_cons]
        omega
    | case4 n c cs hsize => cases h
  · rintro ⟨rfl, rfl⟩
    exact splitBytes?_append before behind

/-- A slice stands between two positions that are in order, both between characters of the text
or at an end of it. -/
theorem slice?_eq_some_iff : slice? cs start stop = some part ↔
    ∃ before behind, cs = before ++ (part ++ behind) ∧ start = byteLength before ∧
      stop = start + byteLength part := by
  constructor
  · intro h
    obtain ⟨⟨before, rest⟩, hstart, h⟩ := Option.bind_eq_some_iff.1 h
    rw [Option.ite_none_right_eq_some] at h
    obtain ⟨horder, h⟩ := h
    obtain ⟨⟨part', behind⟩, hstop, rfl⟩ := Option.map_eq_some_iff.1 h
    obtain ⟨rfl, hbefore⟩ := splitBytes?_eq_some_iff.1 hstart
    obtain ⟨rfl, hpart⟩ := splitBytes?_eq_some_iff.1 hstop
    refine ⟨before, behind, rfl, hbefore, ?_⟩
    dsimp only
    omega
  · rintro ⟨before, behind, rfl, rfl, rfl⟩
    rw [slice?, splitBytes?_append]
    simp [splitBytes?_append]

/-- What stands between two texts is a slice. -/
theorem slice_append (before part behind : List Char) :
    slice (before ++ (part ++ behind)) (byteLength before) (byteLength before + byteLength part) =
      pure part :=
  Checked.get?_of_eq (slice?_eq_some_iff.2 ⟨before, behind, rfl, rfl, rfl⟩)

/-- So is what stands before a text. -/
theorem slice_zero_append (part behind : List Char) :
    slice (part ++ behind) 0 (byteLength part) = pure part :=
  Checked.get?_of_eq (slice?_eq_some_iff.2 ⟨[], behind, rfl, rfl, (Nat.zero_add _).symm⟩)

/-- So is what stands behind a text. -/
theorem slice_append_length (before part : List Char) :
    slice (before ++ part) (byteLength before) (byteLength (before ++ part)) = pure part :=
  Checked.get?_of_eq (slice?_eq_some_iff.2
    ⟨before, [], by rw [List.append_nil], rfl, byteLength_append before part⟩)

theorem position?_append {mark : Char} {lead : List Char} (h : mark ∉ lead) (rest : List Char) :
    position? mark (lead ++ mark :: rest) = some (byteLength lead) := by
  have hfind : find? [mark] (lead ++ mark :: rest) = some lead.length := by
    induction lead with
    | nil => simp [find?]
    | cons c lead ih =>
        obtain ⟨hc, hlead⟩ := not_or.1 (mt List.mem_cons.2 h)
        rw [List.cons_append, find?, if_neg (by simp [List.isPrefixOf, hc]), ih hlead]
        rfl
  rw [position?, hfind, Option.map_some, List.take_left]

theorem position?_of_not_mem {mark : Char} {cs : List Char} (h : mark ∉ cs) :
    position? mark cs = none := by
  have hfind : find? [mark] cs = none := by
    induction cs with
    | nil => rfl
    | cons c cs ih =>
        obtain ⟨hc, hcs⟩ := not_or.1 (mt List.mem_cons.2 h)
        rw [find?, if_neg (by simp [List.isPrefixOf, hc]), ih hcs]
        rfl
  rw [position?, hfind, Option.map_none]

end Slices

section Fronts

variable {cs before behind : List Char} {n : Nat}

/-- The leading characters that fit are followed by the rest of the text. -/
theorem takeBytes_append_drop (n : Nat) (cs : List Char) :
    takeBytes n cs ++ cs.drop (takeBytes n cs).length = cs := by
  induction cs generalizing n with
  | nil => rfl
  | cons c cs ih =>
      rw [takeBytes]
      split
      · rw [List.length_cons, List.drop_succ_cons, List.cons_append, ih]
      · rfl

/-- The character behind those that fit does not fit any more. -/
theorem lt_of_takeBytes {c : Char} (h : cs = takeBytes n cs ++ c :: behind) :
    n < byteLength (takeBytes n cs) + c.utf8Size := by
  induction cs generalizing n with
  | nil => simp [takeBytes] at h
  | cons c' cs ih =>
      rw [takeBytes] at h ⊢
      split at h
      next hsize =>
        rw [if_pos hsize, byteLength_cons]
        have hlater := ih (List.cons.inj h).2
        omega
      next hsize =>
        obtain ⟨rfl, -⟩ := List.cons.inj h
        rw [if_neg hsize, byteLength_nil]
        omega

theorem takeBytes_byteLength (before behind : List Char) :
    takeBytes (byteLength before) (before ++ behind) = before := by
  induction before with
  | nil =>
      cases behind with
      | nil => rfl
      | cons c behind =>
          have hsize := c.utf8Size_pos
          exact if_neg (by rw [byteLength_nil]; omega)
  | cons c before ih =>
      rw [List.cons_append, byteLength_cons, takeBytes, if_pos (by omega), Nat.add_sub_cancel_left,
        ih]

/-- At a position inside a character no more fits than at the one before it. -/
theorem takeBytes_succ (h : splitBytes? (n + 1) cs = none) :
    takeBytes (n + 1) cs = takeBytes n cs := by
  induction cs generalizing n with
  | nil => rfl
  | cons c cs ih =>
      have hpos := c.utf8Size_pos
      rw [splitBytes?] at h
      rw [takeBytes, takeBytes]
      split at h
      next hsize =>
        rw [Option.map_eq_none_iff] at h
        obtain hlast | hinside : c.utf8Size = n + 1 ∨ c.utf8Size ≤ n := by omega
        · rw [hlast, Nat.sub_self, splitBytes?] at h
          cases h
        · have hrest : n + 1 - c.utf8Size = n - c.utf8Size + 1 := by omega
          rw [hrest] at h ⊢
          rw [if_pos hsize, if_pos hinside, ih h]
      next hsize => rw [if_neg hsize, if_neg (by omega)]

end Fronts

section Lengths

/-- Where each character is encoded by one byte, positions count characters. -/
theorem byteLength_of_forall {cs : List Char} (h : ∀ c ∈ cs, c.utf8Size = 1) :
    byteLength cs = cs.length := by
  induction cs with
  | nil => rfl
  | cons c cs ih =>
      obtain ⟨hc, hcs⟩ := List.forall_mem_cons.1 h
      rw [byteLength_cons, hc, ih hcs, List.length_cons, Nat.add_comm]

theorem byteLength_reverse (cs : List Char) : byteLength cs.reverse = byteLength cs := by
  induction cs with
  | nil => rfl
  | cons c cs ih =>
      rw [List.reverse_cons, byteLength_append, ih, byteLength_cons, byteLength_cons,
        byteLength_nil]
      omega

theorem byteLength_eq_zero_iff (cs : List Char) : byteLength cs = 0 ↔ cs = [] := by
  cases cs with
  | nil => simp
  | cons c cs =>
      have hsize := c.utf8Size_pos
      simp only [byteLength_cons, reduceCtorEq, iff_false]
      omega

/-- Characters further on stand at positions further on. -/
theorem byteLength_take_lt {cs : List Char} {m n : Nat} (hmn : m < n) (hm : m < cs.length) :
    byteLength (cs.take m) < byteLength (cs.take n) := by
  induction cs generalizing m n with
  | nil => simp at hm
  | cons c cs ih =>
      obtain ⟨n, rfl⟩ : ∃ k, n = k + 1 := ⟨n - 1, by omega⟩
      have hsize := c.utf8Size_pos
      cases m with
      | zero =>
          rw [List.take_zero, List.take_succ_cons, byteLength_nil, byteLength_cons]
          omega
      | succ m =>
          have hlater := ih (m := m) (n := n) (by omega) (by simpa using hm)
          rw [List.take_succ_cons, List.take_succ_cons, byteLength_cons, byteLength_cons]
          omega

end Lengths

end SchemaChange.Text
