import SchemaChange.Proofs.Script.Unbroken

/-!
# Statements that are read as wholes

Between any two names, texts or values of a statement stands fixed SQL that neither begins nor
ends in a quote. Such statements are read as wholes however they are put together, and they
keep their ends when a script is divided.
-/
namespace SchemaChange

open Script

namespace Sql

/-- The characters of a statement. -/
def chars (q : Quoter) (sql : Sql) : List Char := sql.flatMap fun p => (p.write q).toList

theorem toList_write (q : Quoter) (sql : Sql) : (sql.write q).toList = sql.chars q := by
  rw [write, String.toList_join, chars, List.flatMap_map]

@[simp] theorem chars_append (q : Quoter) (x y : Sql) :
    chars q (x ++ y) = chars q x ++ chars q y := List.flatMap_append

@[simp] theorem chars_singleton (q : Quoter) (p : Piece) :
    chars q [p] = (p.write q).toList := by simp [chars]

/-- Pieces that stand for themselves, with firm SQL between any two. -/
inductive Woven (q : Quoter) : Sql → Prop
  | nil : Woven q []
  | one {p} (h : Standing q.dialect (p.write q).toList) : Woven q [p]
  | between {x y s} (hx : Woven q x) (hs : Firm q.dialect s.toList) (hy : Woven q y) :
      Woven q (x ++ ([.code s] ++ y))
  | behind {x s} (hx : Woven q x) (hs : Standing q.dialect s.toList) (hapart : Apart s.toList)
      (hne : s.toList ≠ []) : Woven q (x ++ [.code s])

theorem Woven.standing {q : Quoter} {sql : Sql} (h : Woven q sql) :
    Standing q.dialect (sql.chars q) := by
  induction h with
  | nil => exact standing_nil _
  | one h => simpa using h
  | between hx hs hy ihx ihy =>
      rw [chars_append, chars_append, chars_singleton]
      exact ihx.between hs ihy
  | behind hx hs hapart hne ihx =>
      rw [chars_append, chars_singleton]
      exact ihx.append hs hapart hne

section Combine

variable {q : Quoter} {x y : Sql} {s : String}

theorem Woven.then (hx : Woven q x) (hs : isFirm s.toList = true) (hy : Woven q y) :
    Woven q (x ++ ([.code s] ++ y)) := .between hx (firm hs) hy

theorem Woven.word (hs : isFirm s.toList = true) : Woven q [.code s] := .one (firm hs).standing

theorem Woven.lead (hs : isFirm s.toList = true) (hy : Woven q y) :
    Woven q ([.code s] ++ y) := .then .nil hs hy

theorem Woven.last (hx : Woven q x) (hs : isFirm s.toList = true) :
    Woven q (x ++ [.code s]) := .then hx hs .nil

/-- Parts with fixed SQL between them. -/
theorem Woven.join (hs : isFirm s.toList = true) {parts : List Sql}
    (h : ∀ part ∈ parts, Woven q part) : Woven q (Sql.join [.code s] parts) := by
  induction parts with
  | nil => exact .nil
  | cons part parts ih =>
      have hpart := h part (List.mem_cons_self ..)
      cases parts with
      | nil => exact hpart
      | cons next parts =>
          rw [Sql.join, List.append_assoc]
          · exact .then hpart hs (ih fun p hp => h p (List.mem_cons_of_mem _ hp))
          · simp

theorem Woven.list {parts : List Sql} (h : ∀ part ∈ parts, Woven q part) :
    Woven q (Sql.list parts) := .join (by decide) h

end Combine

/-- The text begins with a character that begins no separator. -/
def Begins (q : Quoter) (sql : Sql) : Prop :=
  ∃ c, (sql.chars q).head? = some c ∧ isLeading c = true

/-- The text ends with a character other than blanks. -/
def Ends (q : Quoter) (sql : Sql) : Prop :=
  ∃ c, (sql.chars q).getLast? = some c ∧ Text.isBlank c = false

theorem Begins.append {q : Quoter} {x : Sql} (hx : Begins q x) (y : Sql) :
    Begins q (x ++ y) := by
  obtain ⟨c, hc, hleading⟩ := hx
  exact ⟨c, by simp [List.head?_append, hc], hleading⟩

theorem Ends.append {q : Quoter} {y : Sql} (hy : Ends q y) (x : Sql) : Ends q (x ++ y) := by
  obtain ⟨c, hc, hblank⟩ := hy
  exact ⟨c, by simp [hc], hblank⟩

/-- A statement with ends of its own is not changed by trimming. -/
theorem trim_write {q : Quoter} {sql : Sql} (hb : Begins q sql) (he : Ends q sql) :
    Text.trim (sql.write q) = sql.write q := by
  obtain ⟨c, hc, hleading⟩ := hb
  obtain ⟨e, he, hblank⟩ := he
  have htrim : Text.trimmed (sql.chars q) = sql.chars q := Text.trimmed_eq_self
    (fun a ha => by rw [hc] at ha; cases ha; exact isBlank_of_isLeading hleading)
    (fun a ha => by rw [he] at ha; cases ha; exact hblank)
  rw [Text.trim, toList_write, htrim, ← toList_write, String.ofList_toList]

/-- A part that can stand at the end of a statement. Where the condition fails, it may end
in a blank. -/
structure Closing (q : Quoter) (tight : Prop) (sql : Sql) : Prop where
  woven : Woven q sql
  ends : tight → Ends q sql

/-- What is read as a whole has no line break outside the ranges. -/
theorem Woven.lined {q : Quoter} {sql : Sql} (h : Woven q sql) :
    Lined q.dialect (sql.chars q) := fun rest hrest => (h.standing.reads rest hrest).unbroken

/-- A statement that is read as a whole. -/
structure Statement (q : Quoter) (tight : Prop) (sql : Sql) : Prop
    extends Closing q tight sql where
  begins : Begins q sql

section Close

variable {q : Quoter} {tight : Prop} {x y : Sql} {s : String}

/-- A word whose last character is not blank. -/
def isClosed (s : String) : Bool := s.toList.getLast?.any (!Text.isBlank ·)

theorem isClosed_append (s : String) {s' : String} (h : isClosed s' = true) :
    isClosed (s ++ s') = true := by
  obtain ⟨c, hc, hblank⟩ := (Option.any_eq_true _ _).1 h
  simp only [isClosed, String.toList_append, List.getLast?_append, hc, Option.some_or,
    Option.any_some, hblank]

/-- A word whose first character begins no separator. -/
def isOpening (s : String) : Bool := s.toList.head?.any isLeading

theorem ends_code (h : isClosed s = true) : Ends q [.code s] := by
  obtain ⟨c, hc, hblank⟩ := (Option.any_eq_true _ _).1 h
  exact ⟨c, by simpa [Piece.write] using hc, by simpa using hblank⟩

theorem begins_code (h : isOpening s = true) : Begins q [.code s] := by
  obtain ⟨c, hc, hleading⟩ := (Option.any_eq_true _ _).1 h
  exact ⟨c, by simpa [Piece.write] using hc, hleading⟩

theorem Closing.then (hx : Woven q x) (hs : isFirm s.toList = true) (hy : Closing q tight y) :
    Closing q tight (x ++ ([.code s] ++ y)) :=
  ⟨.then hx hs hy.woven, fun h => ((hy.ends h).append _).append _⟩

theorem Closing.lead (hs : isFirm s.toList = true) (hy : Closing q tight y) :
    Closing q tight ([.code s] ++ y) := .then .nil hs hy

theorem Closing.last (hx : Woven q x) (hs : (isFirm s.toList && isClosed s) = true) :
    Closing q tight (x ++ [.code s]) :=
  have h := Bool.and_eq_true_iff.1 hs
  ⟨.last hx h.1, fun _ => (ends_code h.2).append _⟩

theorem Closing.word (hs : (isFirm s.toList && isClosed s) = true) : Closing q tight [.code s] :=
  .last .nil hs

theorem Closing.join (hs : isFirm s.toList = true) {parts : List Sql} (hne : parts ≠ [])
    (h : ∀ part ∈ parts, Closing q tight part) :
    Closing q tight (Sql.join [.code s] parts) := by
  induction parts with
  | nil => exact absurd rfl hne
  | cons part parts ih =>
      have hpart := h part (List.mem_cons_self ..)
      cases parts with
      | nil => exact hpart
      | cons next parts =>
          have hothers := ih (by simp) fun p hp => h p (List.mem_cons_of_mem _ hp)
          rw [Sql.join, List.append_assoc]
          · exact .then hpart.woven hs hothers
          · simp

/-- A word that may be left out. -/
def Optional (q : Quoter) (sql : Sql) : Prop :=
  sql = [] ∨ ∃ s, sql = [.code s] ∧ Firm q.dialect s.toList ∧ isClosed s = true

theorem optional_word (hs : (isFirm s.toList && isClosed s) = true) : Optional q [.code s] :=
  have h := Bool.and_eq_true_iff.1 hs
  .inr ⟨s, rfl, firm h.1, h.2⟩

theorem Closing.optional (hx : Closing q tight x) (hy : Optional q y) :
    Closing q tight (x ++ y) := by
  rcases hy with rfl | ⟨s, rfl, hs, he⟩
  · rwa [List.append_nil]
  · exact ⟨.between hx.woven hs .nil, fun _ => (ends_code he).append x⟩

theorem Statement.lead (hs : (isFirm s.toList && isOpening s) = true)
    (hy : Closing q tight y) : Statement q tight ([.code s] ++ y) :=
  have h := Bool.and_eq_true_iff.1 hs
  ⟨.lead h.1 hy, (begins_code h.2).append y⟩

theorem Statement.then (hx : Statement q tight x) (hs : isFirm s.toList = true)
    (hy : Closing q tight y) : Statement q tight (x ++ ([.code s] ++ y)) :=
  ⟨.then hx.woven hs hy, hx.begins.append _⟩

/-- Fixed SQL that ends in a literal, behind a statement. -/
theorem Statement.behind (hx : Statement q tight x) (hs : Standing q.dialect s.toList)
    (hapart : Apart s.toList) (he : isClosed s = true) : Statement q tight (x ++ [.code s]) := by
  refine ⟨⟨.behind hx.woven hs hapart fun hnil => ?_, fun _ => (ends_code he).append x⟩,
    hx.begins.append _⟩
  rw [isClosed, hnil] at he
  cases he

theorem Statement.optional (hx : Statement q tight x) (hy : Optional q y) :
    Statement q tight (x ++ y) := ⟨hx.toClosing.optional hy, hx.begins.append y⟩

end Close

theorem whole_of_ends {q : Quoter} {sql : Sql} (h : Lined q.dialect (sql.chars q))
    (hb : Begins q sql) (he : Ends q sql) : Whole q.dialect (sql.chars q) := by
  obtain ⟨first, hfirst, hleading⟩ := hb
  obtain ⟨last, hlast, hblank⟩ := he
  exact ⟨h, by simp [hfirst, hleading], by simp [hlast, hblank]⟩

theorem Statement.whole {q : Quoter} {tight : Prop} {sql : Sql} (h : Statement q tight sql)
    (ht : tight) : Whole q.dialect (sql.chars q) :=
  whole_of_ends h.woven.lined h.begins (h.ends ht)

end Sql

end SchemaChange
