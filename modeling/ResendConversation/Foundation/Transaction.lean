import Mathlib.Order.Defs.Unbundled
import Mathlib.Data.List.Basic

/-! # Transactions

A transaction over a store `σ` is a computation that reads and writes the store and may
throw: `Tx σ ε α`.  `execute` runs it with the all-or-nothing semantics of a database, so a
transaction that throws leaves the store as it found it (`execute_of_error`).

Reasoning is by inversion or by frames.  The `_eq_ok` lemmas take a successful run apart,
one statement at a time.  `Preserves R x` says that every successful run of `x` relates the
stores before and after by `R`; for a reflexive and transitive `R` it is closed under the
constructs of the language, so a frame of a long transaction follows from the frames of
the statements it is made of.  `Commits x s` says that `x` does not throw in the store `s`, and
`Fails E x s` that it throws only errors of the kind `E` there. -/

namespace Foundation

variable {σ ε α β : Type}

/-- A computation on a store that may throw. -/
abbrev Tx (σ ε α : Type) := StateT σ (Except ε) α

namespace Tx

/-- Throws `e` unless `c` holds. -/
def ensure (c : Bool) (e : ε) : Tx σ ε Unit := if c then pure () else throw e

/-- The value of `o`, or throws `e`. -/
def orThrow (o : Option α) (e : ε) : Tx σ ε α :=
  match o with
  | some a => pure a
  | none => throw e

/-- Runs a transaction: committed when it returns, rolled back when it throws. -/
def execute (x : Tx σ ε α) (s : σ) : Except ε α × σ :=
  match x s with
  | .ok (a, s') => (.ok a, s')
  | .error e => (.error e, s)

theorem execute_of_ok {x : Tx σ ε α} {s s' : σ} {a : α} (h : x s = .ok (a, s')) :
    x.execute s = (.ok a, s') := by simp [execute, h]

theorem ok_of_execute {x : Tx σ ε α} {s s' : σ} {a : α} (h : x.execute s = (.ok a, s')) :
    x s = .ok (a, s') := by
  unfold execute at h
  split at h <;> simp_all

/-! ### Inversion -/

theorem bind_eq_ok {x : Tx σ ε α} {f : α → Tx σ ε β} {s s'' : σ} {b : β} :
    (x >>= f) s = .ok (b, s'') ↔ ∃ a s', x s = .ok (a, s') ∧ f a s' = .ok (b, s'') := by
  change (x s >>= fun p => f p.1 p.2) = _ ↔ _
  cases x s with
  | error e => simp [bind, Except.bind]
  | ok p =>
      obtain ⟨a, s'⟩ := p
      simp [bind, Except.bind]

theorem bind_eq_error {x : Tx σ ε α} {f : α → Tx σ ε β} {s : σ} {e : ε} :
    (x >>= f) s = .error e ↔
      x s = .error e ∨ ∃ a s', x s = .ok (a, s') ∧ f a s' = .error e := by
  change (x s >>= fun p => f p.1 p.2) = _ ↔ _
  cases x s with
  | error e => simp [bind, Except.bind]
  | ok p =>
      obtain ⟨a, s'⟩ := p
      simp [bind, Except.bind]

theorem pure_eq_error {a : α} {s : σ} {e : ε} : (pure a : Tx σ ε α) s = .error e ↔ False := by
  change Except.ok (a, s) = _ ↔ _
  simp

theorem get_eq_error {s : σ} {e : ε} : (get : Tx σ ε σ) s = .error e ↔ False := by
  change Except.ok (s, s) = _ ↔ _
  simp

theorem modify_eq_error {f : σ → σ} {s : σ} {e : ε} :
    (modify f : Tx σ ε Unit) s = .error e ↔ False := by
  change Except.ok ((), f s) = _ ↔ _
  simp

theorem pure_eq_ok {a b : α} {s s' : σ} :
    (pure a : Tx σ ε α) s = .ok (b, s') ↔ a = b ∧ s = s' := by
  change Except.ok (a, s) = _ ↔ _
  simp

theorem throw_eq_ok {e : ε} {b : α} {s s' : σ} :
    (throw e : Tx σ ε α) s = .ok (b, s') ↔ False := by
  change Except.error e = _ ↔ _
  simp

theorem get_eq_ok {s r s' : σ} : (get : Tx σ ε σ) s = .ok (r, s') ↔ s = r ∧ s = s' := by
  change Except.ok (s, s) = _ ↔ _
  simp

theorem modify_eq_ok {f : σ → σ} {s s' : σ} {u : Unit} :
    (modify f : Tx σ ε Unit) s = .ok (u, s') ↔ f s = s' := by
  change Except.ok ((), f s) = _ ↔ _
  simp

theorem ensure_eq_ok {c : Bool} {e : ε} {s s' : σ} {u : Unit} :
    (ensure c e : Tx σ ε Unit) s = .ok (u, s') ↔ c = true ∧ s = s' := by
  unfold ensure
  split <;> simp_all [pure_eq_ok, throw_eq_ok]

theorem orThrow_eq_ok {o : Option α} {e : ε} {s s' : σ} {a : α} :
    (orThrow o e : Tx σ ε α) s = .ok (a, s') ↔ o = some a ∧ s = s' := by
  unfold orThrow
  split <;> simp_all [pure_eq_ok, throw_eq_ok]

theorem orThrow_eq_error {o : Option α} {e e' : ε} {s : σ} :
    (orThrow o e : Tx σ ε α) s = .error e' ↔ o = none ∧ e = e' := by
  unfold orThrow
  cases o with
  | none =>
      change Except.error e = _ ↔ _
      simp
  | some a =>
      change Except.ok (a, s) = _ ↔ _
      simp

/-! ### Frames -/

/-- Every successful run of `x` relates the stores before and after by `R`. -/
def Preserves (R : σ → σ → Prop) (x : Tx σ ε α) : Prop :=
  ∀ ⦃s a s'⦄, x s = .ok (a, s') → R s s'

namespace Preserves

variable {R : σ → σ → Prop}

theorem mono {R' : σ → σ → Prop} {x : Tx σ ε α} (h : Preserves R x)
    (hR : ∀ s s', R s s' → R' s s') : Preserves R' x := fun _ _ _ hx => hR _ _ (h hx)

theorem modify {f : σ → σ} (h : ∀ s, R s (f s)) : Preserves R (modify f : Tx σ ε Unit) := by
  intro s a s' hx
  rw [← modify_eq_ok.mp hx]
  exact h s

theorem ite {c : Prop} [Decidable c] {x y : Tx σ ε α} (hx : Preserves R x) (hy : Preserves R y) :
    Preserves R (if c then x else y) := by
  split
  · exact hx
  · exact hy

variable [Std.Refl R]

theorem pure (a : α) : Preserves R (pure a : Tx σ ε α) := by
  intro s b s' hx
  rw [← (pure_eq_ok.mp hx).2]
  exact Std.Refl.refl s

theorem get : Preserves R (get : Tx σ ε σ) := by
  intro s r s' hx
  rw [← (get_eq_ok.mp hx).2]
  exact Std.Refl.refl s

theorem ensure (c : Bool) (e : ε) : Preserves R (ensure c e : Tx σ ε Unit) := by
  intro s u s' hx
  rw [← (ensure_eq_ok.mp hx).2]
  exact Std.Refl.refl s

theorem orThrow (o : Option α) (e : ε) : Preserves R (orThrow o e : Tx σ ε α) := by
  intro s a s' hx
  rw [← (orThrow_eq_ok.mp hx).2]
  exact Std.Refl.refl s

/-- A committed or rolled back transaction relates the stores before and after. -/
theorem execute {x : Tx σ ε α} (h : Preserves R x) (s : σ) : R s (x.execute s).2 := by
  unfold Tx.execute
  split
  next hx => exact h hx
  next => exact Std.Refl.refl s

variable [IsTrans σ R]

omit [Std.Refl R] in
theorem bind {x : Tx σ ε α} {f : α → Tx σ ε β} (hx : Preserves R x)
    (hf : ∀ a, Preserves R (f a)) : Preserves R (x >>= f) := by
  intro s b s'' h
  obtain ⟨a, s', h₁, h₂⟩ := bind_eq_ok.mp h
  exact IsTrans.trans _ _ _ (hx h₁) (hf a h₂)

theorem forM {l : List β} {f : β → Tx σ ε PUnit} (hf : ∀ b ∈ l, Preserves R (f b)) :
    Preserves R (l.forM f) := by
  induction l with
  | nil => exact pure _
  | cons b l ih =>
      change Preserves R (f b >>= fun _ => l.forM f)
      exact (hf b List.mem_cons_self).bind fun _ => ih fun c hc => hf c (List.mem_cons_of_mem _ hc)

end Preserves

/-! ### Success -/

/-- The transaction does not throw. -/
def Commits (x : Tx σ ε α) (s : σ) : Prop := ∃ a s', x s = .ok (a, s')

namespace Commits

theorem pure (a : α) (s : σ) : Commits (pure a : Tx σ ε α) s := ⟨a, s, rfl⟩

theorem get (s : σ) : Commits (get : Tx σ ε σ) s := ⟨s, s, rfl⟩

theorem modify (f : σ → σ) (s : σ) : Commits (modify f : Tx σ ε Unit) s := ⟨(), f s, rfl⟩

theorem modifyGet (f : σ → α × σ) (s : σ) : Commits (modifyGet f : Tx σ ε α) s :=
  ⟨(f s).1, (f s).2, rfl⟩

theorem ensure {c : Bool} (h : c = true) (e : ε) (s : σ) : Commits (ensure c e : Tx σ ε Unit) s :=
  ⟨(), s, ensure_eq_ok.mpr ⟨h, rfl⟩⟩

theorem orThrow {o : Option α} (h : o.isSome) (e : ε) (s : σ) :
    Commits (orThrow o e : Tx σ ε α) s := by
  obtain ⟨a, ha⟩ := Option.isSome_iff_exists.mp h
  exact ⟨a, s, orThrow_eq_ok.mpr ⟨ha, rfl⟩⟩

/-- The rest may rely on what the first part did. -/
theorem bind {x : Tx σ ε α} {f : α → Tx σ ε β} {s : σ} (hx : Commits x s)
    (hf : ∀ a s', x s = .ok (a, s') → Commits (f a) s') : Commits (x >>= f) s := by
  obtain ⟨a, s', h⟩ := hx
  obtain ⟨b, s'', h'⟩ := hf a s' h
  exact ⟨b, s'', bind_eq_ok.mpr ⟨a, s', h, h'⟩⟩

/-- Two statements that commit one after the other, and the rest. -/
theorem bind₂ {x : Tx σ ε α} {f : α → Tx σ ε β} {γ : Type} {g : β → Tx σ ε γ} {s : σ}
    (hxf : Commits (x >>= f) s)
    (hg : ∀ a s', x s = .ok (a, s') → ∀ b s'', f a s' = .ok (b, s'') → Commits (g b) s'') :
    Commits (x >>= fun a => f a >>= g) s := by
  obtain ⟨b, s'', h⟩ := hxf
  obtain ⟨a, s', hx, hf⟩ := bind_eq_ok.mp h
  obtain ⟨c, s''', hc⟩ := hg a s' hx b s'' hf
  exact ⟨c, s''', bind_eq_ok.mpr ⟨a, s', hx, bind_eq_ok.mpr ⟨b, s'', hf, hc⟩⟩⟩

theorem ite {c : Prop} [Decidable c] {x y : Tx σ ε α} {s : σ} (hx : c → Commits x s)
    (hy : ¬c → Commits y s) : Commits (if c then x else y) s := by
  split
  next h => exact hx h
  next h => exact hy h

/-- A loop commits and keeps the invariant when each round does. -/
theorem forM {I : σ → Prop} {l : List β} {f : β → Tx σ ε PUnit} {s : σ} (h0 : I s)
    (hf : ∀ b ∈ l, ∀ s, I s → Commits (f b) s ∧ ∀ u s', f b s = .ok (u, s') → I s') :
    Commits (l.forM f) s ∧ ∀ u s', l.forM f s = .ok (u, s') → I s' := by
  induction l generalizing s with
  | nil =>
      refine ⟨pure _ s, fun u s' h => ?_⟩
      obtain ⟨-, rfl⟩ := pure_eq_ok.mp h
      exact h0
  | cons b l ih =>
      change Commits (f b >>= fun _ => l.forM f) s ∧
        ∀ u s', (f b >>= fun _ => l.forM f) s = .ok (u, s') → I s'
      obtain ⟨hcommits, hkeeps⟩ := hf b List.mem_cons_self s h0
      have hrest := fun u s' h => ih (hkeeps u s' h) fun c hc => hf c (List.mem_cons_of_mem _ hc)
      refine ⟨hcommits.bind fun u s' h => (hrest u s' h).1, fun u s'' h => ?_⟩
      obtain ⟨v, s', h₁, h₂⟩ := bind_eq_ok.mp h
      exact (hrest v s' h₁).2 u s'' h₂

end Commits

/-! ### Failure -/

/-- Every error that the transaction throws in the store satisfies `E`. -/
def Fails (E : ε → Prop) (x : Tx σ ε α) (s : σ) : Prop := ∀ e, x s = .error e → E e

namespace Fails

variable {E : ε → Prop}

theorem of_commits {x : Tx σ ε α} {s : σ} (h : Commits x s) : Fails E x s := by
  obtain ⟨a, s', h⟩ := h
  intro e he
  rw [h] at he
  cases he

theorem bind {x : Tx σ ε α} {f : α → Tx σ ε β} {s : σ} (hx : Fails E x s)
    (hf : ∀ a s', x s = .ok (a, s') → Fails E (f a) s') : Fails E (x >>= f) s := by
  intro e he
  rcases bind_eq_error.mp he with he | ⟨a, s', hok, he⟩
  · exact hx e he
  · exact hf a s' hok e he

theorem ite {c : Prop} [Decidable c] {x y : Tx σ ε α} {s : σ} (hx : c → Fails E x s)
    (hy : ¬c → Fails E y s) : Fails E (if c then x else y) s := by
  split
  next h => exact hx h
  next h => exact hy h

theorem orThrow {o : Option α} {e : ε} {s : σ} (h : o = none → E e) :
    Fails E (orThrow o e : Tx σ ε α) s := by
  intro e' he
  obtain ⟨hnone, rfl⟩ := orThrow_eq_error.mp he
  exact h hnone

theorem ensure {c : Bool} {e : ε} {s : σ} (h : c = false → E e) :
    Fails E (ensure c e : Tx σ ε Unit) s := by
  intro e' he
  cases c with
  | true => cases he
  | false =>
      cases he
      exact h rfl

end Fails

end Tx

end Foundation
