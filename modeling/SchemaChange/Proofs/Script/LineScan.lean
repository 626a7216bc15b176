import SchemaChange.Proofs.Script.Separator
import SchemaChange.Proofs.Text.Search
import SchemaChange.Script.Batch

/-!
# Scanning a line as a relation

Everything that one step of the scan of a line can do, one constructor each. All facts
about whole scans are proved by induction on this relation, never on the function.
-/
namespace SchemaChange.Script

/-- The number of characters ahead that lie outside every range for certain. -/
def plainLength (sp : Splitter) (c : Cursor) : Nat :=
  ((firstRange? c sp.ranges).map (·.1)).getD c.rest.length

theorem plainLength_of_none {sp : Splitter} {c : Cursor} (h : firstRange? c sp.ranges = none) :
    plainLength sp c = c.rest.length := by
  rw [plainLength, h]
  rfl

theorem plainLength_of_some {sp : Splitter} {c : Cursor} {n : Nat} {r : Range}
    (h : firstRange? c sp.ranges = some (n, r)) : plainLength sp c = n := by
  rw [plainLength, h]
  rfl

/-- The separator search at a place outside every range. -/
def findToken (sp : Splitter) (blocks : BlockState) (c : Cursor) : BlockState × Option Token :=
  sp.separator.find blocks (plainAt c (plainLength sp c))

/-- From a state and a place, a line yields some events and leaves some state. -/
inductive LineScan (sp : Splitter) :
    ScanState → Cursor → List Event → ScanState → Prop
  | closes {r outer blocks c n es st} (hend : r.findEnd? c.rest = some (.closes n))
      (next : LineScan sp ⟨outer, blocks⟩ (c.advance (n + r.closing.length)) es st) :
      LineScan sp ⟨r :: outer, blocks⟩ c
        (.text (c.rest.take (n + r.closing.length)) (some r) :: es) st
  | nests {r outer blocks c n es st} (hend : r.findEnd? c.rest = some (.nests n))
      (next : LineScan sp ⟨r :: r :: outer, blocks⟩ (c.advance (n + r.opening.length)) es st) :
      LineScan sp ⟨r :: outer, blocks⟩ c
        (.text (c.rest.take (n + r.opening.length)) (some r) :: es) st
  | stays {r outer blocks c} (hend : r.findEnd? c.rest = none) :
      LineScan sp ⟨r :: outer, blocks⟩ c [.text c.rest (some r)] ⟨r :: outer, blocks⟩
  | ends {blocks c} (hrest : c.rest = []) : LineScan sp ⟨[], blocks⟩ c [] ⟨[], blocks⟩
  | keeps {blocks blocks' c n es st} (hrest : c.rest ≠ [])
      (hfind : findToken sp blocks c = (blocks', some (.mark n true)))
      (next : LineScan sp ⟨[], blocks'⟩ (c.advance (n + 1)) es st) :
      LineScan sp ⟨[], blocks⟩ c
        (.text (c.rest.take (n + 1)) none :: .cut [] .statement :: es) st
  | drops {blocks blocks' c n es st} (hrest : c.rest ≠ [])
      (hfind : findToken sp blocks c = (blocks', some (.mark n false)))
      (next : LineScan sp ⟨[], blocks'⟩ (c.advance (n + 1)) es st) :
      LineScan sp ⟨[], blocks⟩ c
        (.text (c.rest.take n) none :: .cut [';'] .statement :: es) st
  | wholeLine {blocks blocks' c kind} (hrest : c.rest ≠ [])
      (hfind : findToken sp blocks c = (blocks', some (.wholeLine kind))) :
      LineScan sp ⟨[], blocks⟩ c [.cut c.rest kind] ⟨[], blocks'⟩
  | plain {blocks blocks' c} (hrest : c.rest ≠ []) (hrange : firstRange? c sp.ranges = none)
      (hfind : findToken sp blocks c = (blocks', none)) :
      LineScan sp ⟨[], blocks⟩ c [.text c.rest none] ⟨[], blocks'⟩
  | opens {blocks blocks' c n r es st} (hrest : c.rest ≠ [])
      (hrange : firstRange? c sp.ranges = some (n, r))
      (hfind : findToken sp blocks c = (blocks', none))
      (next : LineScan sp ⟨[r], blocks'⟩ (c.advance (n + r.opening.length)) es st) :
      LineScan sp ⟨[], blocks⟩ c (.text (c.rest.take n) none ::
        .text ((c.rest.drop n).take r.opening.length) (some r) :: es) st

theorem findToken_mark {sp : Splitter} {blocks blocks' : BlockState} {c : Cursor} {n : Nat}
    {kept : Bool} (h : findToken sp blocks c = (blocks', some (.mark n kept))) :
    n < plainLength sp c ∧ c.rest[n]? = some ';' := by
  have hsemi := (find_mark h).1
  simp only [plainAt, List.getElem?_take, Option.ite_none_right_eq_some] at hsemi
  exact hsemi

theorem take_mark {sp : Splitter} {blocks blocks' : BlockState} {c : Cursor} {n : Nat}
    {kept : Bool} (h : findToken sp blocks c = (blocks', some (.mark n kept))) :
    (c.rest.drop n).take 1 = [';'] ∧ c.rest.take (n + 1) = c.rest.take n ++ [';'] := by
  have hsemi := (findToken_mark h).2
  obtain ⟨hlt, hget⟩ := List.getElem?_eq_some_iff.1 hsemi
  refine ⟨?_, by rw [List.take_add_one, hsemi]; rfl⟩
  rw [List.drop_eq_getElem_cons hlt, hget]
  rfl

/-- The scan of a line is related to its result. -/
theorem lineScan_scanLine (sp : Splitter) (st : ScanState) (c : Cursor) :
    LineScan sp st c (scanLine sp st c).1 (scanLine sp st c).2 := by
  fun_induction scanLine sp st c with
  | case1 st c r outer hr n hend length es st' hscan ih =>
      obtain ⟨ranges, blocks⟩ := st
      subst hr
      exact .closes hend (by simpa only [hscan] using ih)
  | case2 st c r outer hr n hend length es st' hscan ih =>
      obtain ⟨ranges, blocks⟩ := st
      subst hr
      exact .nests hend (by simpa only [hscan] using ih)
  | case3 st c r outer hr hend =>
      obtain ⟨ranges, blocks⟩ := st
      subst hr
      exact .stays hend
  | case4 st c hr hrest =>
      obtain ⟨ranges, blocks⟩ := st
      subst hr
      exact .ends hrest
  | case5 st c hr hrest next plain blocks' n es st' hscan before mark hparts hfind ih =>
      obtain ⟨ranges, blocks⟩ := st
      subst hr
      obtain ⟨hmark, htake⟩ := take_mark hfind
      cases hparts
      rw [hmark, ← htake]
      exact .keeps hrest hfind (by simpa only [hscan] using ih)
  | case6 st c hr hrest next plain blocks' n kept hfind es st' hscan before mark hparts hkept
      ih =>
      obtain ⟨ranges, blocks⟩ := st
      subst hr
      obtain rfl : kept = false := by simpa using hkept
      cases hparts
      rw [(take_mark hfind).1]
      exact .drops hrest hfind (by simpa only [hscan] using ih)
  | case7 st c hr hrest next plain blocks' kind hfind =>
      obtain ⟨ranges, blocks⟩ := st
      subst hr
      exact .wholeLine hrest hfind
  | case8 st c hr hrest next plain blocks' hfind hnext =>
      obtain ⟨ranges, blocks⟩ := st
      subst hr
      exact .plain hrest hnext hfind
  | case9 st c hr hrest next plain blocks' hfind n r hnext length es st' hscan ih =>
      obtain ⟨ranges, blocks⟩ := st
      subst hr
      exact .opens hrest hnext hfind (by simpa only [hscan] using ih)

theorem take_append_advance (c : Cursor) (n : Nat) :
    c.rest.take n ++ (c.advance n).rest = c.rest := List.take_append_drop n c.rest

/-- A line keeps all its characters. -/
theorem LineScan.chars {sp : Splitter} {st st' : ScanState} {c : Cursor} {es : List Event}
    (h : LineScan sp st c es st') : es.flatMap Event.chars = c.rest := by
  induction h with
  | closes hend next ih | nests hend next ih =>
      simp [Event.chars, ih]
  | stays hend => simp [Event.chars]
  | ends hrest => simp [hrest]
  | keeps hrest hfind next ih =>
      simp [Event.chars, ih]
  | drops hrest hfind next ih =>
      rw [List.flatMap_cons, List.flatMap_cons, ih]
      have htake := (take_mark hfind).2
      simp only [Event.chars, ← List.append_assoc, ← htake, take_append_advance]
  | wholeLine hrest hfind => simp [Event.chars]
  | plain hrest hrange hfind => simp [Event.chars]
  | @opens blocks blocks' c n r es st hrest hrange hfind next ih =>
      rw [List.flatMap_cons, List.flatMap_cons, ih]
      simp only [Event.chars, Cursor.advance_rest, ← List.drop_drop]
      rw [List.take_append_drop, List.take_append_drop]

end SchemaChange.Script
