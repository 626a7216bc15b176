import Mathlib.Data.PFun

/-!
# Steps that may fail and loops that may not end

A computation that need not have a result: it has none if it takes something out of range, and
none if one of its loops does not end.
-/
namespace SchemaChange

/-- What a computation gives, if it takes nothing out of range and each of its loops ends. -/
abbrev Checked : Type → Type := Part

namespace Checked

variable {σ α : Type} {step : σ → Checked (α ⊕ σ)} {s s' : σ} {a : α}

/-- The value that is there, if there is one. -/
def get? (value? : Option α) : Checked α := Part.ofOption value?

theorem get?_of_eq {value? : Option α} (h : value? = some a) : get? value? = pure a := by
  subst h
  rfl

/-- Repeat a step until it gives a result. -/
def loop (step : σ → Checked (α ⊕ σ)) (s : σ) : Checked α := PFun.fix step s

/-- A loop ends with a step that gives a result. -/
theorem loop_done (h : step s = pure (.inl a)) : loop step s = pure a := by
  have hmem : Sum.inl a ∈ step s := by
    rw [h]
    exact Part.mem_some _
  exact Part.eq_some_iff.2 (PFun.fix_stop hmem)

/-- Otherwise it goes on where the step leads. -/
theorem loop_next (h : step s = pure (.inr s')) : loop step s = loop step s' := by
  have hmem : Sum.inr s' ∈ step s := by
    rw [h]
    exact Part.mem_some _
  exact PFun.fix_fwd_eq hmem

/-- From states that lead to the same step a loop gives the same. -/
theorem loop_congr (h : step s = step s') : loop step s = loop step s' := by
  have hmem : ∀ a, a ∈ loop step s ↔ a ∈ loop step s' := fun a =>
    PFun.mem_fix_iff.trans (h ▸ PFun.mem_fix_iff.symm)
  exact Part.ext hmem

end Checked

end SchemaChange
