/-!
# Patterns with placeholders

A placeholder is a key between braces. Substitution is simultaneous: what is put in for a
placeholder is never scanned again, and a brace that opens no known placeholder stands
for itself.
-/
namespace SchemaChange.Naming

/-- The characters up to the first closing brace, and those behind it. -/
def takeKey? : List Char → Option (List Char × List Char)
  | [] => none
  | c :: cs =>
      if c = '\x7d' then some ([], cs)
      else (takeKey? cs).map fun (key, rest) => (c :: key, rest)

theorem takeKey?_length {cs key rest : List Char} (h : takeKey? cs = some (key, rest)) :
    rest.length < cs.length := by
  induction cs generalizing key with
  | nil => simp [takeKey?] at h
  | cons c cs ih =>
      rw [takeKey?] at h
      split at h
      · cases h; simp
      · obtain ⟨⟨k, r⟩, hr, he⟩ := Option.map_eq_some_iff.1 h
        cases he
        have := ih hr
        simp only [List.length_cons]
        omega

/-- Replace every placeholder whose key has a value. -/
def fill (value? : List Char → Option (List Char)) (pattern : List Char) : List Char :=
  match pattern with
  | [] => []
  | c :: cs =>
      if c = '\x7b' then
        match _h : takeKey? cs with
        | some (key, rest) =>
            match value? key with
            | some value => value ++ fill value? rest
            | none => c :: fill value? cs
        | none => c :: fill value? cs
      else c :: fill value? cs
termination_by pattern.length
decreasing_by
  all_goals simp only [List.length_cons]
  · have := takeKey?_length _h
    omega
  all_goals omega

/-- The text of a pattern with given values; the first entry of a key counts. -/
def format (pattern : String) (values : List (String × String)) : String :=
  let value? (key : List Char) := (values.find? (·.1.toList == key)).map (·.2.toList)
  String.ofList (fill value? pattern.toList)

end SchemaChange.Naming
