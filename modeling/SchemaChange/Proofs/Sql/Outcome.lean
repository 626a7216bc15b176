import Mathlib.Data.List.Forall2
import SchemaChange.Error

/-!
# Results of operations that can fail

What holds of every result of an operation follows from what holds of the results of its
steps.
-/
namespace SchemaChange

instance decidableEqExcept {ε α : Type} [DecidableEq ε] [DecidableEq α] : DecidableEq (Except ε α)
  | .ok a, .ok b => decidable_of_iff (a = b) (by rw [Except.ok.injEq])
  | .error a, .error b => decidable_of_iff (a = b) (by rw [Except.error.injEq])
  | .ok _, .error _ | .error _, .ok _ => isFalse nofun

/-- Every result satisfies the property. -/
def Yields {α : Type} (x : Except Error α) (holds : α → Prop) : Prop := ∀ a, x = .ok a → holds a

section Yields

variable {α β : Type} {x : Except Error α} {holds : α → Prop} {goal : β → Prop}

theorem yields_ok {a : α} (h : holds a) : Yields (.ok a) holds := by
  intro b hb
  cases hb
  exact h

theorem yields_error (e : Error) : Yields (.error e) holds := nofun

theorem Yields.bind (hx : Yields x holds) {f : α → Except Error β}
    (hf : ∀ a, holds a → Yields (f a) goal) : Yields (x >>= f) goal := by
  cases x with
  | error e => exact yields_error e
  | ok a => exact hf a (hx a rfl)

/-- A step whose result does not matter. -/
theorem yields_bind (x : Except Error α) {f : α → Except Error β}
    (hf : ∀ a, x = .ok a → Yields (f a) goal) : Yields (x >>= f) goal := by
  cases x with
  | error e => exact yields_error e
  | ok a => exact hf a rfl

/-- Work that first needs something in some case. -/
theorem yields_after {c : Prop} [Decidable c] {first : Except Error β} {y : Except Error α}
    (h : Yields y holds) : Yields (if c then first >>= fun _ => y else y) holds := by
  split
  · exact yields_bind first fun _ _ => h
  · exact h

theorem Yields.mono {other : α → Prop} (hx : Yields x holds) (h : ∀ a, holds a → other a) :
    Yields x other := fun a ha => h a (hx a ha)

theorem yields_mapM {f : α → Except Error β} {as : List α} (hf : ∀ a ∈ as, Yields (f a) goal) :
    Yields (as.mapM f) (∀ b ∈ ·, goal b) := by
  induction as with
  | nil => exact yields_ok (by simp)
  | cons a as ih =>
      rw [List.mapM_cons]
      refine (hf a (List.mem_cons_self ..)).bind fun b hb => ?_
      refine (ih fun a ha => hf a (List.mem_cons_of_mem _ ha)).bind fun bs hbs => ?_
      exact yields_ok (by simpa using ⟨hb, hbs⟩)

/-- A result has gone through both steps. -/
theorem exists_of_bind {f : α → Except Error β} {b : β} (h : x >>= f = .ok b) :
    ∃ a, x = .ok a ∧ f a = .ok b := by
  cases x with
  | error e => cases h
  | ok a => exact ⟨a, rfl, h⟩

/-- Work on a result that cannot fail adds no failure. -/
theorem map_eq_error_iff {g : α → β} {e : Error} :
    (do return g (← x)) = Except.error e ↔ x = .error e := by
  cases x with
  | error e' => constructor <;> (intro h; cases h; rfl)
  | ok a => constructor <;> (intro h; cases h)

/-- The results stand in the order of the elements. -/
theorem forall₂_of_mapM {f : α → Except Error β} {as : List α} {bs : List β}
    (h : as.mapM f = .ok bs) : List.Forall₂ (fun a b => f a = .ok b) as bs := by
  induction as generalizing bs with
  | nil =>
      cases h
      exact .nil
  | cons first as ih =>
      rw [List.mapM_cons] at h
      obtain ⟨b, hb, h⟩ := exists_of_bind h
      obtain ⟨others, hothers, h⟩ := exists_of_bind h
      cases h
      exact .cons hb (ih hothers)

theorem mapM_eq_ok {f : α → Except Error β} {g : α → β} {as : List α}
    (h : ∀ a ∈ as, f a = .ok (g a)) : as.mapM f = .ok (as.map g) := by
  induction as with
  | nil => rfl
  | cons a as ih =>
      rw [List.mapM_cons, h a (List.mem_cons_self ..),
        ih fun a ha => h a (List.mem_cons_of_mem _ ha)]
      rfl

theorem exists_mapM {f : α → Except Error β} {as : List α}
    (h : ∀ a ∈ as, ∃ b, f a = .ok b) : ∃ bs, as.mapM f = .ok bs := by
  induction as with
  | nil => exact ⟨[], rfl⟩
  | cons a as ih =>
      obtain ⟨b, hb⟩ := h a (List.mem_cons_self ..)
      obtain ⟨bs, hbs⟩ := ih fun a ha => h a (List.mem_cons_of_mem _ ha)
      exact ⟨b :: bs, by rw [List.mapM_cons, hb, hbs]; rfl⟩

/-- Every result is that of some element. -/
theorem exists_of_mem_mapM {f : α → Except Error β} {as : List α} {bs : List β}
    (h : as.mapM f = .ok bs) {b : β} (hb : b ∈ bs) : ∃ a ∈ as, f a = .ok b := by
  have hall : Yields (as.mapM f) (∀ b ∈ ·, ∃ a ∈ as, f a = .ok b) :=
    yields_mapM fun a ha b h => ⟨a, ha, h⟩
  exact hall bs h b hb

/-- A run fails at the first element that fails. -/
theorem mapM_eq_error_iff {f : α → Except Error β} {as : List α} {e : Error} :
    as.mapM f = .error e ↔ ∃ before a after, as = before ++ a :: after ∧
      (∀ b ∈ before, ∃ c, f b = .ok c) ∧ f a = .error e := by
  induction as with
  | nil =>
      constructor
      · nofun
      · rintro ⟨before, a, after, h, -⟩
        cases before <;> cases h
  | cons first as ih =>
      rw [List.mapM_cons]
      cases hfirst : f first with
      | error e' =>
          constructor
          · rintro ⟨⟩
            exact ⟨[], first, as, rfl, by simp, hfirst⟩
          · rintro ⟨before, a, after, h, hbefore, ha⟩
            cases before with
            | nil =>
                obtain ⟨rfl, -⟩ := List.cons.inj h
                obtain rfl : e' = e := Except.error.inj (hfirst.symm.trans ha)
                rfl
            | cons b before =>
                obtain ⟨rfl, -⟩ := List.cons.inj h
                obtain ⟨c, hc⟩ := hbefore first (List.mem_cons_self ..)
                cases hfirst.symm.trans hc
      | ok c =>
          have hrest : (do
              let others ← as.mapM f
              Except.ok (c :: others)) = .error e ↔ as.mapM f = .error e := by
            cases as.mapM f with
            | error _ => exact ⟨fun h => by cases h; rfl, fun h => by cases h; rfl⟩
            | ok _ => exact ⟨nofun, nofun⟩
          refine hrest.trans (ih.trans ⟨?_, ?_⟩)
          · rintro ⟨before, a, after, rfl, hbefore, ha⟩
            exact ⟨first :: before, a, after, rfl,
              List.forall_mem_cons.2 ⟨⟨c, hfirst⟩, hbefore⟩, ha⟩
          · rintro ⟨before, a, after, h, hbefore, ha⟩
            cases before with
            | nil =>
                obtain ⟨rfl, -⟩ := List.cons.inj h
                cases hfirst.symm.trans ha
            | cons b before =>
                obtain ⟨rfl, rfl⟩ := List.cons.inj h
                exact ⟨before, a, after, rfl, (List.forall_mem_cons.1 hbefore).2, ha⟩

/-- Operations that fail alike also succeed alike. -/
theorem exists_ok_of_fail {γ : Type} {x : Except Error β} {y : Except Error γ}
    (h : ∀ e, x = .error e ↔ y = .error e) (hx : ∃ b, x = .ok b) : ∃ c, y = .ok c := by
  obtain ⟨b, hx⟩ := hx
  cases hy : y with
  | ok c => exact ⟨c, rfl⟩
  | error e => cases hx.symm.trans ((h e).2 hy)

/-- Runs of steps that fail alike fail alike. -/
theorem mapM_eq_error_congr {γ : Type} {f : α → Except Error β} {g : α → Except Error γ}
    {as : List α} (h : ∀ a e, f a = .error e ↔ g a = .error e) {e : Error} :
    as.mapM f = .error e ↔ as.mapM g = .error e := by
  rw [mapM_eq_error_iff, mapM_eq_error_iff]
  have hok : ∀ a, (∃ b, f a = .ok b) ↔ ∃ c, g a = .ok c := fun a =>
    ⟨exists_ok_of_fail (h a), exists_ok_of_fail fun e => (h a e).symm⟩
  simp only [hok, h]

theorem exists_of_forall₂ {related : α → β → Prop} {as : List α} {bs : List β}
    (h : List.Forall₂ related as bs) {a : α} (ha : a ∈ as) : ∃ b ∈ bs, related a b := by
  induction h with
  | nil => cases ha
  | @cons first b as bs hb _ ih =>
      rcases List.mem_cons.1 ha with rfl | ha
      · exact ⟨b, List.mem_cons_self .., hb⟩
      · obtain ⟨b', hb', hrelated⟩ := ih ha
        exact ⟨b', List.mem_cons_of_mem _ hb', hrelated⟩

/-- Every element has its result. -/
theorem mem_of_mapM {f : α → Except Error β} {as : List α} {bs : List β}
    (h : as.mapM f = .ok bs) {a : α} (ha : a ∈ as) : ∃ b ∈ bs, f a = .ok b :=
  exists_of_forall₂ (forall₂_of_mapM h) ha

end Yields

end SchemaChange
