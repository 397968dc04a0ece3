import Mathlib.Order.Defs.Unbundled

/-! # Transition systems

A system is a partial step function `step : σ → α → Option σ`: the action carries every
choice of the environment, and `none` means that the action is not possible.  `Run step ok`
relates the ends of the finite runs all of whose steps satisfy the side condition `ok` on
the state before the step and the action; the runs of the plain system are those with the
side condition `Always`.

An invariant is proved once for a step and carried to a run by `Run.invariant`; a relation
between the ends of a run by `Run.relates`.  Concrete runs are executed by `exec`. -/

namespace Foundation

variable {σ α : Type}

/-- The side condition that restricts nothing. -/
abbrev Always : σ → α → Prop := fun _ _ => True

section
variable (step : σ → α → Option σ) (ok : σ → α → Prop)

/-- Finite runs whose steps all satisfy `ok`. -/
inductive Run : σ → σ → Prop
  | refl (s : σ) : Run s s
  | tail {s t u : σ} {a : α} : Run s t → ok t a → step t a = some u → Run s u

/-- Executes a list of actions; fails when one is impossible or violates `ok`. -/
def exec [∀ s a, Decidable (ok s a)] : σ → List α → Option σ
  | s, [] => some s
  | s, a :: as => if ok s a then (step s a).bind fun t => exec t as else none

end

variable {step : σ → α → Option σ} {ok : σ → α → Prop}

namespace Run

theorem head {s t u : σ} {a : α} (ha : ok s a) (hs : step s a = some t) (h : Run step ok t u) :
    Run step ok s u := by
  induction h with
  | refl => exact (Run.refl s).tail ha hs
  | tail _ hb ht ih => exact ih.tail hb ht

theorem trans {s t u : σ} (h₁ : Run step ok s t) (h₂ : Run step ok t u) : Run step ok s u := by
  induction h₂ with
  | refl => exact h₁
  | tail _ hb ht ih => exact ih.tail hb ht

theorem mono {ok' : σ → α → Prop} {s t : σ} (h : Run step ok s t)
    (hok : ∀ s a, ok s a → ok' s a) : Run step ok' s t := by
  induction h with
  | refl => exact Run.refl _
  | tail _ hb ht ih => exact ih.tail (hok _ _ hb) ht

/-- A property of the first state that every step keeps holds of the last state. -/
theorem invariant {I : σ → Prop} {s t : σ} (h : Run step ok s t) (h0 : I s)
    (hstep : ∀ s a t, I s → ok s a → step s a = some t → I t) : I t := by
  induction h with
  | refl => exact h0
  | tail _ hb ht ih => exact hstep _ _ _ ih hb ht

theorem of_exec [∀ s a, Decidable (ok s a)] {as : List α} :
    ∀ {s t : σ}, exec step ok s as = some t → Run step ok s t := by
  induction as with
  | nil =>
      intro s t h
      cases h
      exact Run.refl s
  | cons a as ih =>
      intro s t h
      simp only [exec] at h
      split at h
      next ha =>
        obtain ⟨u, hs, hu⟩ := Option.bind_eq_some_iff.mp h
        exact head ha hs (ih hu)
      next => cases h

/-- A concrete run ends in a state that satisfies `p`. -/
theorem exists_of_exec [∀ s a, Decidable (ok s a)] {s : σ} (as : List α) {p : σ → Prop}
    [DecidablePred p] (h : ((exec step ok s as).any fun t => decide (p t)) = true) :
    ∃ t, Run step ok s t ∧ p t := by
  cases ht : exec step ok s as with
  | none => simp [ht] at h
  | some t =>
      rw [ht] at h
      exact ⟨t, of_exec ht, of_decide_eq_true (by simpa using h)⟩

/-- A concrete run in two parts, whose ends satisfy `p`. -/
theorem exists_of_exec_exec [∀ s a, Decidable (ok s a)] {s : σ} (as bs : List α) {p : σ → σ → Prop}
    [∀ t u, Decidable (p t u)]
    (h : ((exec step ok s as).any fun t => (exec step ok t bs).any fun u =>
      decide (p t u)) = true) :
    ∃ t u, Run step ok s t ∧ Run step ok t u ∧ p t u := by
  obtain ⟨t, hst, ht⟩ := exists_of_exec as (p := fun t =>
    ((exec step ok t bs).any fun u => decide (p t u)) = true) (by simpa using h)
  obtain ⟨u, htu, hp⟩ := exists_of_exec bs (p := p t) ht
  exact ⟨t, u, hst, htu, hp⟩

/-- A concrete run and one more step, whose ends satisfy `p`. -/
theorem exists_of_exec_step [∀ s a, Decidable (ok s a)] {s : σ} (as : List α) (a : α)
    {p : σ → σ → Prop} [∀ t u, Decidable (p t u)]
    (h : ((exec step ok s as).any fun t => (step t a).any fun u => decide (p t u)) = true) :
    ∃ t u, Run step ok s t ∧ step t a = some u ∧ p t u := by
  obtain ⟨t, hst, ht⟩ := exists_of_exec as (p := fun t =>
    ((step t a).any fun u => decide (p t u)) = true) (by simpa using h)
  cases hu : step t a with
  | none => simp [hu] at ht
  | some u =>
      rw [hu] at ht
      exact ⟨t, u, hst, hu, of_decide_eq_true (by simpa using ht)⟩

end Run

end Foundation
