import Mathlib.Order.Defs.Unbundled
import Mathlib.Data.List.Basic

/-! # Histories of guarded events

A store whose changes are events: an event may happen in a state that enables it, and then
determines the next state.  `Trace E es s t` says that the events `es` happen one after
another from `s` to `t`; `Explains E P s t` that some events of the kind `P` do.  A state of a
concrete program is mapped to the store of such a system, and every transaction of the
program is shown to be explained by events of the kinds that it may cause. -/

namespace Foundation

variable {σ ε : Type*}

/-- A system of guarded events. -/
structure EventSystem (σ ε : Type*) where
  Enabled : σ → ε → Prop
  apply : σ → ε → σ

namespace EventSystem

/-- The events happen one after another. -/
inductive Trace (E : EventSystem σ ε) : List ε → σ → σ → Prop
  | nil (s : σ) : Trace E [] s s
  | cons {s t : σ} {e : ε} {es : List ε} : E.Enabled s e → Trace E es (E.apply s e) t →
      Trace E (e :: es) s t

variable {E : EventSystem σ ε}

namespace Trace

theorem single {s : σ} {e : ε} (h : E.Enabled s e) : Trace E [e] s (E.apply s e) :=
  .cons h (.nil _)

theorem append {es fs : List ε} {s t u : σ} (h : Trace E es s t) (h' : Trace E fs t u) :
    Trace E (es ++ fs) s u := by
  induction h with
  | nil => exact h'
  | cons he _ ih => exact .cons he (ih h')

/-- What every event of a trace keeps, the trace keeps. -/
theorem invariant {I : σ → Prop} {es : List ε} {s t : σ} (h : Trace E es s t) (h0 : I s)
    (hstep : ∀ s, ∀ e ∈ es, I s → E.Enabled s e → I (E.apply s e)) : I t := by
  induction h with
  | nil => exact h0
  | cons he _ ih =>
      exact ih (hstep _ _ List.mem_cons_self h0 he) fun s e hes =>
        hstep s e (List.mem_cons_of_mem _ hes)

/-- A reflexive and transitive relation that every event respects relates the ends of a
trace, along with an invariant. -/
theorem relates {I : σ → Prop} {R : σ → σ → Prop} [Std.Refl R] [IsTrans σ R] {es : List ε} {s t : σ}
    (h : Trace E es s t) (h0 : I s)
    (hstep : ∀ s, ∀ e ∈ es, I s → E.Enabled s e → I (E.apply s e) ∧ R s (E.apply s e)) :
    I t ∧ R s t := by
  induction h with
  | nil => exact ⟨h0, Std.Refl.refl _⟩
  | cons he _ ih =>
      obtain ⟨hI, hR⟩ := hstep _ _ List.mem_cons_self h0 he
      obtain ⟨hI', hR'⟩ := ih hI fun s e hes => hstep s e (List.mem_cons_of_mem _ hes)
      exact ⟨hI', IsTrans.trans _ _ _ hR hR'⟩

end Trace

/-- Some events of the kind `P` lead from the one state to the other. -/
def Explains (E : EventSystem σ ε) (P : ε → Prop) (s t : σ) : Prop :=
  ∃ es, (∀ e ∈ es, P e) ∧ Trace E es s t

namespace Explains

variable {P Q : ε → Prop} {s t u : σ}

theorem refl (s : σ) : E.Explains P s s := ⟨[], by simp, .nil s⟩

theorem single {e : ε} (he : P e) (h : E.Enabled s e) : E.Explains P s (E.apply s e) :=
  ⟨[e], by simpa using he, .single h⟩

theorem trans (h : E.Explains P s t) (h' : E.Explains P t u) : E.Explains P s u := by
  obtain ⟨es, hes, hst⟩ := h
  obtain ⟨fs, hfs, htu⟩ := h'
  refine ⟨es ++ fs, fun e he => ?_, hst.append htu⟩
  rcases List.mem_append.mp he with he | he
  · exact hes e he
  · exact hfs e he

theorem mono (h : E.Explains P s t) (hPQ : ∀ e, P e → Q e) : E.Explains Q s t := by
  obtain ⟨es, hes, hst⟩ := h
  exact ⟨es, fun e he => hPQ e (hes e he), hst⟩

theorem relates {I : σ → Prop} {R : σ → σ → Prop} [Std.Refl R] [IsTrans σ R] (h : E.Explains P s t)
    (h0 : I s) (hstep : ∀ s e, P e → I s → E.Enabled s e → I (E.apply s e) ∧ R s (E.apply s e)) :
    I t ∧ R s t := by
  obtain ⟨es, hes, hst⟩ := h
  exact hst.relates h0 fun s e he => hstep s e (hes e he)

theorem invariant {I : σ → Prop} (h : E.Explains P s t) (h0 : I s)
    (hstep : ∀ s e, P e → I s → E.Enabled s e → I (E.apply s e)) : I t := by
  obtain ⟨es, hes, hst⟩ := h
  exact hst.invariant h0 fun s e he => hstep s e (hes e he)

end Explains

end EventSystem

end Foundation
