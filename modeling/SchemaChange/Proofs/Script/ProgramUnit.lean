import SchemaChange.Proofs.Script.Words

/-!
# Program units

The statements that hold procedural code: a heading with declarations, and a block in which
blocks, cases, conditions and loops are nested to any depth. No semicolon inside such a unit
ends a statement, and the one behind it does.
-/
namespace SchemaChange.Script

namespace Lexeme

/-- A lexeme that can stand in declarations. -/
def isDeclarative : Lexeme → Bool
  | word w => !(w == "BEGIN" || w == "END" || w == "CASE" || w == "DECLARE")
  | ending _ => false
  | semicolon | other => true

/-- A lexeme that can stand in a body by itself. -/
def isOrdinary : Lexeme → Bool
  | word w => (word w).isDeclarative && !(w == "IF" || w == "LOOP")
  | l => l.isDeclarative

theorem isDeclarative_of_isOrdinary {l : Lexeme} (h : l.isOrdinary) : l.isDeclarative := by
  cases l with
  | word w => exact (Bool.and_eq_true_iff.1 h).1
  | ending w | semicolon | other => exact h

end Lexeme

/-- The lexemes around a nested part of a body. -/
inductive Encloses : Lexeme → Lexeme → Prop
  | block : Encloses (.word "BEGIN") (.word "END")
  | caseExpression : Encloses (.word "CASE") (.word "END")
  | caseStatement : Encloses (.word "CASE") (.ending "CASE")
  | condition : Encloses (.word "IF") (.ending "IF")
  | loop : Encloses (.word "LOOP") (.ending "LOOP")

/-- The words and semicolons of the body of a block. -/
inductive Body : List Lexeme → Prop
  | nil : Body []
  | ordinary {l ls} (hl : l.isOrdinary) (rest : Body ls) : Body (l :: ls)
  | nested {first last inner ls} (h : Encloses first last) (body : Body inner)
      (rest : Body ls) : Body (first :: (inner ++ last :: ls))
  | declared {decls inner ls} (hdecls : ∀ l ∈ decls, l.isDeclarative) (body : Body inner)
      (rest : Body ls) :
      Body (.word "DECLARE" :: (decls ++ .word "BEGIN" :: (inner ++ .word "END" :: ls)))

/-- What stands before the block of a program unit. -/
inductive Heading : List Lexeme → Prop
  | nothing : Heading []
  | declare {decls} (hdecls : ∀ l ∈ decls, l.isDeclarative) : Heading (.word "DECLARE" :: decls)
  | create {replace kind decls} (hreplace : replace ∈ [[], [.word "OR", .word "REPLACE"]])
      (hkind : kind ∈ ["PROCEDURE", "FUNCTION", "TRIGGER"])
      (hdecls : ∀ l ∈ decls, l.isDeclarative) :
      Heading (.word "CREATE" :: (replace ++ .word kind :: decls))

/-- The words and semicolons of a program unit, perhaps with its name behind the last END. -/
inductive ProgramUnit : List Lexeme → Prop
  | block {heading body} {label : Option String} (hheading : Heading heading) (hbody : Body body)
      (hlabel : ∀ w ∈ label, (Lexeme.word w).isOrdinary) :
      ProgramUnit (heading ++ .word "BEGIN" ::
        (body ++ .word "END" :: (label.map Lexeme.word).toList))

/-- Only words and semicolons count up to a semicolon at the end. -/
theorem firstEnd_of_filter {s s' : BlockState} {ls : List Lexeme}
    (h : firstEnd s (ls.filter (· ≠ .other) ++ [.semicolon]) = some (s', [])) :
    firstEnd s (ls ++ [.semicolon]) = some (s', []) := by
  induction ls generalizing s with
  | nil => exact h
  | cons l ls ih =>
      cases l with
      | word w | ending w | other => exact ih h
      | semicolon =>
          rw [List.filter_cons_of_pos (by decide), List.cons_append, firstEnd] at h
          rw [List.cons_append, firstEnd]
          split at h
          · simp at h
          · rw [if_neg ‹_›]
            exact ih h

/-- The state inside a block, behind its heading. -/
def inBlock (openers : List Opener) : BlockState :=
  { openers, containsBlock := true, header := .done }

/-- The state behind a heading that waits for its block. -/
def inDeclarations (openers : List Opener) : BlockState :=
  { openers, awaitsBegin := true, containsBlock := true, header := .done }

section Reading

variable {s : BlockState} {openers : List Opener} {ls : List Lexeme}

theorem isClosed_inBlock (hne : openers ≠ []) : (inBlock openers).isClosed = false := by
  simp [BlockState.isClosed, inBlock, hne]

theorem isClosed_inDeclarations (openers : List Opener) :
    (inDeclarations openers).isClosed = false := by
  simp [BlockState.isClosed, inDeclarations]

theorem readWord_of_isDeclarative {w : String} (hs : s.header = .done)
    (hw : (Lexeme.word w).isDeclarative) : (s.readWord w none).1 = s := by
  have hheader : s.readHeader w = s := by simp [BlockState.readHeader, hs]
  rw [Lexeme.isDeclarative] at hw
  unfold BlockState.readWord
  split <;> simp_all

/-- Declarations change nothing while no semicolon ends the statement. -/
theorem firstEnd_declarations (hs : s.header = .done) (hopen : s.isClosed = false)
    (hls : ∀ l ∈ ls, l.isDeclarative) (rest : List Lexeme) :
    firstEnd s (ls ++ rest) = firstEnd s rest := by
  induction ls with
  | nil => rfl
  | cons l ls ih =>
      obtain ⟨hl, hothers⟩ := List.forall_mem_cons.1 hls
      cases l with
      | word w => rw [List.cons_append, firstEnd, readWord_of_isDeclarative hs hl, ih hothers]
      | ending w => cases hl
      | semicolon => rw [List.cons_append, firstEnd, hopen, if_neg (by simp), ih hothers]
      | other => rw [List.cons_append, firstEnd, ih hothers]

/-- What encloses a part of a body opens and closes the same thing. -/
theorem exists_openers {first last : Lexeme} (h : Encloses first last) (openers : List Opener)
    (hne : openers ≠ []) : ∃ inner, inner ≠ [] ∧
      (∀ ls, firstEnd (inBlock openers) (first :: ls) = firstEnd (inBlock inner) ls) ∧
      ∀ ls, firstEnd (inBlock inner) (last :: ls) = firstEnd (inBlock openers) ls := by
  cases h with
  | block => exact ⟨.block :: openers, nofun, fun _ => rfl, fun _ => rfl⟩
  | caseExpression | caseStatement =>
      exact ⟨.case :: openers, nofun, fun _ => rfl, fun _ => rfl⟩
  | condition | loop => exact ⟨openers, hne, fun _ => rfl, fun _ => rfl⟩

/-- A body leaves open what was open before it, and no semicolon in it ends the statement. -/
theorem firstEnd_body (h : Body ls) (hne : openers ≠ []) (rest : List Lexeme) :
    firstEnd (inBlock openers) (ls ++ rest) = firstEnd (inBlock openers) rest := by
  induction h generalizing openers rest with
  | nil => rfl
  | @ordinary l ls hl others ih =>
      have hlone : ∀ l' ∈ [l], l'.isDeclarative := by
        simpa using Lexeme.isDeclarative_of_isOrdinary hl
      rw [List.cons_append, ← ih hne rest]
      exact firstEnd_declarations rfl (isClosed_inBlock hne) hlone (ls ++ rest)
  | nested h body others ihbody ih =>
      obtain ⟨inner, hinner, hfirst, hlast⟩ := exists_openers h openers hne
      rw [List.cons_append, hfirst, List.append_assoc, List.cons_append, ihbody hinner, hlast,
        ih hne]
  | declared hdecls body others ihbody ih =>
      have hfirst : ∀ ls, firstEnd (inBlock openers) (.word "DECLARE" :: ls) =
          firstEnd (inDeclarations openers) ls := fun _ => rfl
      have hbegin : ∀ ls, firstEnd (inDeclarations openers) (.word "BEGIN" :: ls) =
          firstEnd (inBlock (.block :: openers)) ls := fun _ => rfl
      have hlast : ∀ ls, firstEnd (inBlock (.block :: openers)) (.word "END" :: ls) =
          firstEnd (inBlock openers) ls := fun _ => rfl
      rw [List.cons_append, hfirst, List.append_assoc, List.cons_append,
        firstEnd_declarations rfl (isClosed_inDeclarations openers) hdecls, hbegin,
        List.append_assoc, List.cons_append, ihbody (by simp), hlast, ih hne]

/-- Behind a heading, BEGIN opens the outermost block. -/
theorem firstEnd_heading (h : Heading ls) (rest : List Lexeme) :
    firstEnd {} (ls ++ .word "BEGIN" :: rest) = firstEnd (inBlock [.block]) rest := by
  cases h with
  | nothing => rfl
  | @declare decls hdecls =>
      have hfirst : ∀ ls, firstEnd {} (.word "DECLARE" :: ls) =
          firstEnd (inDeclarations []) ls := fun _ => rfl
      rw [List.cons_append, hfirst,
        firstEnd_declarations rfl (isClosed_inDeclarations []) hdecls]
      rfl
  | @create replace kind decls hreplace hkind hdecls =>
      have hfirst : ∀ ls, firstEnd {} (.word "CREATE" :: (replace ++ .word kind :: ls)) =
          firstEnd (inDeclarations []) ls := by
        simp only [List.mem_cons, List.not_mem_nil, or_false] at hreplace hkind
        intro ls
        rcases hreplace with rfl | rfl <;> rcases hkind with rfl | rfl | rfl <;> rfl
      rw [List.cons_append, List.append_assoc, List.cons_append, hfirst,
        firstEnd_declarations rfl (isClosed_inDeclarations []) hdecls]
      rfl

/-- A name behind the END of a block changes nothing. -/
theorem firstEnd_label {label : Option String}
    (hlabel : ∀ w ∈ label, (Lexeme.word w).isOrdinary) (rest : List Lexeme) :
    firstEnd (inBlock openers) ((label.map Lexeme.word).toList ++ rest) =
      firstEnd (inBlock openers) rest := by
  cases label with
  | none => rfl
  | some w =>
      have hw := readWord_of_isDeclarative (s := inBlock openers) rfl
        (Lexeme.isDeclarative_of_isOrdinary (hlabel w rfl))
      rw [Option.map_some, Option.toList_some, List.singleton_append, firstEnd, hw]

/-- The semicolon behind a program unit is the first that ends the statement. -/
theorem firstEnd_programUnit (h : ProgramUnit ls) :
    firstEnd {} (ls ++ [.semicolon]) = some (inBlock [], []) := by
  obtain @⟨heading, body, label, hheading, hbody, hlabel⟩ := h
  have hlast : ∀ ls, firstEnd (inBlock [.block]) (.word "END" :: ls) =
      firstEnd (inBlock []) ls := fun _ => rfl
  rw [List.append_assoc, List.cons_append, firstEnd_heading hheading, List.append_assoc,
    List.cons_append, firstEnd_body hbody (by simp), hlast, firstEnd_label hlabel]
  rfl

end Reading

end SchemaChange.Script
