import Mathlib.Data.List.Forall2
import SchemaChange.Proofs.Naming.Pattern
import SchemaChange.Proofs.Text.Slice

/-!
# Simultaneous substitution

A loop over byte positions fills in a pattern. In each round it copies the text before the next
opening brace and writes the value of the key behind it, or the brace alone if there is none. What
it has written is apart from what it has still to read, so no value is looked at again, and it ends
on every pattern.
-/
namespace SchemaChange.Naming

/-- One round of the loop, on what is written and what is still to be read. -/
def fillStep (value? : List Char → Option (List Char)) :
    List Char × List Char → Checked (List Char ⊕ (List Char × List Char))
  | (written, rest) =>
      match Text.position? '\x7b' rest with
      | none => return .inl (written ++ rest)
      | some start => do
          let before ← Text.slice rest 0 start
          let opened ← Text.slice rest start (Text.byteLength rest)
          let inner ← Text.slice opened 1 (Text.byteLength opened)
          let kept := written ++ before ++ ['\x7b']
          match Text.position? '\x7d' inner with
          | none => return .inr (kept, inner)
          | some stop => do
              let key ← Text.slice opened 1 (stop + 1)
              match value? key with
              | none => return .inr (kept, inner)
              | some value => do
                  let behind ← Text.slice opened (stop + 2) (Text.byteLength opened)
                  return .inr (written ++ before ++ value, behind)

/-- Fill in a pattern by byte positions. -/
def formatBytes (pattern : String) (values : List (String × String)) : Checked String := do
  return String.ofList (← Checked.loop (fillStep (lookup values)) ([], pattern.toList))

section Loop

variable {value? : List Char → Option (List Char)} {written before inner key behind : List Char}

/-- The slices that a round takes from an opening brace on. -/
theorem slices_opened (before inner : List Char) :
    Text.slice (before ++ '\x7b' :: inner) 0 (Text.byteLength before) = pure before ∧
      Text.slice (before ++ '\x7b' :: inner) (Text.byteLength before)
        (Text.byteLength (before ++ '\x7b' :: inner)) = pure ('\x7b' :: inner) ∧
      Text.slice ('\x7b' :: inner) 1 (Text.byteLength ('\x7b' :: inner)) = pure inner :=
  ⟨Text.slice_zero_append before _, Text.slice_append_length before _,
    Text.slice_append_length ['\x7b'] inner⟩

/-- The slices that a round takes around a key. -/
theorem slices_key (key behind : List Char) :
    Text.slice ('\x7b' :: (key ++ '\x7d' :: behind)) 1 (Text.byteLength key + 1) = pure key ∧
      Text.slice ('\x7b' :: (key ++ '\x7d' :: behind)) (Text.byteLength key + 2)
        (Text.byteLength ('\x7b' :: (key ++ '\x7d' :: behind))) = pure behind := by
  have hkey := Text.slice_append ['\x7b'] key ('\x7d' :: behind)
  have hbehind := Text.slice_append_length ('\x7b' :: (key ++ ['\x7d'])) behind
  have hone : Text.byteLength ['\x7b'] = 1 := rfl
  have htwo : Text.byteLength ('\x7b' :: (key ++ ['\x7d'])) = Text.byteLength key + 2 := by
    have hopen : ('\x7b' : Char).utf8Size = 1 := rfl
    have hclose : ('\x7d' : Char).utf8Size = 1 := rfl
    simp only [Text.byteLength_cons, Text.byteLength_append, Text.byteLength_nil, hopen, hclose]
    omega
  rw [htwo, List.cons_append, List.append_assoc, List.singleton_append] at hbehind
  rw [hone, Nat.add_comm] at hkey
  exact ⟨hkey, hbehind⟩

theorem fillStep_done {rest : List Char} (h : '\x7b' ∉ rest) :
    fillStep value? (written, rest) = pure (.inl (written ++ rest)) := by
  rw [fillStep, Text.position?_of_not_mem h]

/-- Without a key and a value for it the brace is copied. -/
theorem fillStep_kept (hbefore : '\x7b' ∉ before)
    (h : ∀ key behind, takeKey? inner = some (key, behind) → value? key = none) :
    fillStep value? (written, before ++ '\x7b' :: inner) =
      pure (.inr (written ++ before ++ ['\x7b'], inner)) := by
  obtain ⟨htaken, hopened, hinner⟩ := slices_opened before inner
  rw [fillStep, Text.position?_append hbefore]
  simp only [htaken, hopened, hinner, pure_bind]
  by_cases hclose : '\x7d' ∈ inner
  · obtain ⟨key, behind, rfl, hkey⟩ := List.eq_append_cons_of_mem hclose
    rw [Text.position?_append hkey]
    simp only [(slices_key key behind).1, pure_bind, h _ _ (takeKey?_append hkey behind)]
  · rw [Text.position?_of_not_mem hclose]

/-- A key with a value is replaced. -/
theorem fillStep_known {value : List Char} (hbefore : '\x7b' ∉ before) (hkey : '\x7d' ∉ key)
    (h : value? key = some value) :
    fillStep value? (written, before ++ '\x7b' :: (key ++ '\x7d' :: behind)) =
      pure (.inr (written ++ before ++ value, behind)) := by
  obtain ⟨htaken, hopened, hinner⟩ := slices_opened before (key ++ '\x7d' :: behind)
  obtain ⟨hsliced, hbehind⟩ := slices_key key behind
  rw [fillStep, Text.position?_append hbefore]
  simp only [htaken, hopened, hinner, pure_bind]
  rw [Text.position?_append hkey]
  simp only [hsliced, hbehind, h, pure_bind]

/-- The loop ends, and behind what was written it has filled in the rest. -/
theorem loop_fillStep (value? : List Char → Option (List Char)) (written rest : List Char) :
    Checked.loop (fillStep value?) (written, rest) = pure (written ++ fill value? rest) := by
  by_cases hopen : '\x7b' ∈ rest
  · obtain ⟨before, inner, hrest, hbefore⟩ := List.eq_append_cons_of_mem hopen
    have hinner : inner.length < rest.length := by
      rw [hrest, List.length_append, List.length_cons]
      omega
    by_cases hkept : ∀ key behind, takeKey? inner = some (key, behind) → value? key = none
    · have hlater := loop_fillStep value? (written ++ before ++ ['\x7b']) inner
      rw [hrest, Checked.loop_next (fillStep_kept hbefore hkept), hlater, fill_append hbefore,
        fill_kept hkept]
      simp
    · simp only [not_forall] at hkept
      obtain ⟨key, behind, htake, hvalue⟩ := hkept
      obtain ⟨value, hvalue⟩ := Option.ne_none_iff_exists'.1 hvalue
      obtain ⟨hsplit, hkey⟩ := takeKey?_eq_some htake
      have hbehind : behind.length < rest.length := by
        rw [hrest, hsplit, List.length_append, List.length_cons, List.length_append,
          List.length_cons]
        omega
      have hlater := loop_fillStep value? (written ++ before ++ value) behind
      rw [hrest, hsplit, Checked.loop_next (fillStep_known hbefore hkey hvalue), hlater,
        fill_append hbefore, fill_known hkey hvalue]
      simp
  · have hcopied : fill value? (rest ++ []) = rest ++ fill value? [] := fill_append hopen []
    rw [List.append_nil, fill, List.append_nil] at hcopied
    rw [Checked.loop_done (fillStep_done hopen), hcopied]
termination_by rest.length

theorem formatBytes_eq (pattern : String) (values : List (String × String)) :
    formatBytes pattern values = pure (format pattern values) := by
  rw [formatBytes, loop_fillStep, pure_bind]
  rfl

end Loop

section Values

variable {values : List (String × String)}

theorem lookup_first {k v : String} {before after : List (String × String)}
    (h : k ∉ before.map Prod.fst) :
    lookup (before ++ (k, v) :: after) k.toList = some v.toList := by
  induction before with
  | nil => simp [lookup]
  | cons entry before ih =>
      obtain ⟨hentry, hbefore⟩ := not_or.1 (mt List.mem_cons.2 h)
      have hother : (entry.1.toList == k.toList) = false := by
        rw [beq_eq_false_iff_ne, Ne, String.toList_inj]
        exact Ne.symm hentry
      have hlater := ih hbefore
      simp only [lookup, List.cons_append, List.find?_cons, hother] at hlater ⊢
      exact hlater

theorem lookup_unknown {k : String} (h : k ∉ values.map Prod.fst) :
    lookup values k.toList = none := by
  rw [lookup, Option.map_eq_none_iff, List.find?_eq_none]
  intro entry hentry hk
  rw [beq_iff_eq, String.toList_inj] at hk
  exact h (hk ▸ List.mem_map_of_mem hentry)

end Values

namespace Segment

variable {values : List (String × String)}

/-- What a part of a pattern becomes: a text stays, a key gives way to the value of its first entry,
and a key without an entry stays as it is spelled. -/
inductive Becomes (values : List (String × String)) : Segment → List Char → Prop
  | text (s : String) : Becomes values (text s) s.toList
  | known {k v : String} {before after : List (String × String)}
      (hvalues : values = before ++ (k, v) :: after) (hfirst : k ∉ before.map Prod.fst) :
      Becomes values (key k) v.toList
  | unknown {k : String} (h : k ∉ values.map Prod.fst) :
      Becomes values (key k) ('\x7b' :: (k.toList ++ ['\x7d']))

/-- Each part becomes one text. -/
theorem becomes_iff {part : Segment} {cs : List Char} :
    part.Becomes values cs ↔ cs = part.filled (lookup values) := by
  constructor
  · intro h
    cases h with
    | text s => rfl
    | known hvalues hfirst => rw [filled, hvalues, lookup_first hfirst, Option.getD_some]
    | unknown h => rw [filled, lookup_unknown h, Option.getD_none, spelled]
  · rintro rfl
    cases part with
    | text s => exact .text s
    | key k =>
        by_cases hk : k ∈ values.map Prod.fst
        · obtain ⟨keys, others, hkeys, hfirst⟩ := List.eq_append_cons_of_mem hk
          obtain ⟨before, found, rfl, rfl, hfound⟩ := List.map_eq_append_iff.1 hkeys
          obtain ⟨⟨k, v⟩, after, rfl, rfl, -⟩ := List.map_eq_cons_iff.1 hfound
          rw [filled, lookup_first hfirst]
          exact .known rfl hfirst
        · rw [filled, lookup_unknown hk]
          exact .unknown hk

end Segment

/-- On every pattern the loop ends with what filling in gives. A pattern that is put together from
texts and keys without braces is filled in all at once: every part becomes what it does by itself,
whatever stands in the values. -/
theorem format_simultaneous (values : List (String × String)) :
    (∀ pattern, formatBytes pattern values = pure (format pattern values)) ∧
      ∀ parts : List Segment, (∀ part ∈ parts, part.isPlain = true) →
        ∃ texts, List.Forall₂ (Segment.Becomes values) parts texts ∧
          format (String.ofList (parts.flatMap Segment.spelled)) values =
            String.ofList texts.flatten := by
  refine ⟨fun pattern => formatBytes_eq pattern values, fun parts hparts => ?_⟩
  refine ⟨parts.map (Segment.filled (lookup values)), ?_, ?_⟩
  · rw [List.forall₂_map_right_iff]
    exact List.forall₂_same.2 fun part _ => Segment.becomes_iff.2 rfl
  · apply String.toList_injective
    rw [toList_format parts (String.toList_ofList ..) hparts, String.toList_ofList,
      List.flatMap_def]

/-- A value that spells another placeholder is put in as it stands, a second entry of its key
counts for nothing, and a key without an entry stays. -/
theorem format_simultaneous_nested :
    (∀ part ∈ [Segment.key "a", .text " ", .key "b", .text " ", .key "c"],
      part.isPlain = true) ∧
      format "\x7ba\x7d \x7bb\x7d \x7bc\x7d" [("a", "\x7bb\x7d"), ("b", "x"), ("a", "y")] =
        "\x7bb\x7d x \x7bc\x7d" := by
  have hplain : ∀ part ∈ [Segment.key "a", .text " ", .key "b", .text " ", .key "c"],
      part.isPlain = true := by decide
  obtain ⟨texts, hparts, h⟩ := (format_simultaneous
    [("a", "\x7bb\x7d"), ("b", "x"), ("a", "y")]).2 _ hplain
  have htexts : texts = ["\x7bb\x7d", " ", "x", " ", "\x7bc\x7d"].map String.toList := by
    simpa [List.forall₂_cons_left_iff, Segment.becomes_iff, Segment.filled, lookup,
      Segment.spelled] using hparts
  rw [htexts] at h
  exact ⟨hplain, h⟩

end SchemaChange.Naming
