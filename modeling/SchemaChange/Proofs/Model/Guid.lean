import SchemaChange.Model.Guid
import SchemaChange.Proofs.Text.Digit

/-!
# Identifiers are read back

The hyphenated form of an identifier is read as the identifier.
-/
namespace SchemaChange.Guid

theorem digit?_digitChar (d : Fin 16) : digit? (Nat.digitChar d.val) = some d := by
  rw [digit?, Text.hexValue?_digitChar d.val d.isLt]
  simp

theorem length_plain (g : Guid) : g.plain.length = 32 := by
  rw [plain, List.length_map, g.length_digits]

theorem ofPlain?_plain (g : Guid) : ofPlain? g.plain = some g := by
  have hdigits : g.plain.mapM digit? = some g.digits := by
    have hmap : ∀ ds : List (Fin 16),
        (ds.map fun d => Nat.digitChar d.val).mapM digit? = some ds := by
      intro ds
      induction ds with
      | nil => rfl
      | cons d ds ih => simp [digit?_digitChar, ih]
    exact hmap g.digits
  simp [ofPlain?, hdigits, g.length_digits]

/-- Hyphens between groups of the right lengths are taken out. -/
theorem ofHyphenated?_groups {a b c d e : List Char} (ha : a.length = 8) (hb : b.length = 4)
    (hc : c.length = 4) (hd : d.length = 4) (he : e.length = 12) :
    ofHyphenated? (a ++ '-' :: b ++ '-' :: c ++ '-' :: d ++ '-' :: e) =
      ofPlain? (a ++ b ++ c ++ d ++ e) := by
  simp [ofHyphenated?, List.getElem?_append, List.drop_append,
    List.drop_of_length_le, ha, hb, hc, hd, he]

/-- The hyphenated form is read as the identifier. -/
theorem read?_hyphenated (g : Guid) : read? g.hyphenated = some g := by
  have hlength := g.length_plain
  have hgroups : g.plain.take 8 ++ (g.plain.drop 8).take 4 ++ (g.plain.drop 12).take 4 ++
      (g.plain.drop 16).take 4 ++ g.plain.drop 20 = g.plain := by
    have hjoin : ∀ n, (g.plain.drop n).take 4 ++ g.plain.drop (n + 4) = g.plain.drop n := by
      intro n
      rw [← List.drop_drop, List.take_append_drop]
    simp only [List.append_assoc]
    rw [hjoin 16, hjoin 12, hjoin 8, List.take_append_drop]
  have hread := ofHyphenated?_groups (a := g.plain.take 8) (b := (g.plain.drop 8).take 4)
    (c := (g.plain.drop 12).take 4) (d := (g.plain.drop 16).take 4) (e := g.plain.drop 20)
    (by simp [hlength]) (by simp [hlength]) (by simp [hlength]) (by simp [hlength])
    (by simp [hlength])
  have hlong : g.hyphenated.length = 36 := by simp [hyphenated, hlength]
  rw [read?, if_neg (by omega), if_neg (by omega), if_neg (by omega), hyphenated, hread, hgroups,
    ofPlain?_plain]

end SchemaChange.Guid
