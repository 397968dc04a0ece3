import Mathlib.Data.Fintype.EquivFin
import Mathlib.Data.Set.Finite.Basic
import Mathlib.Logic.Relation

/-! # Parent maps

A parent map `f : α → Option α` gives every node its parent, if it has one.  It is acyclic
when no node is its own proper ancestor.  Removing links keeps it acyclic (`Acyclic.mono`);
letting a set of roots adopt a node keeps it acyclic exactly when none of them is an ancestor
of that node (`acyclic_adopt_iff`).  Where only finitely many nodes have a parent, following
the parents of an acyclic map from any node comes to an end (`Acyclic.follow_ends`). -/

namespace Foundation

namespace Forest

variable {α : Type*}

/-- `a` is the parent of `b`. -/
def Parent (f : α → Option α) (a b : α) : Prop := f b = some a

/-- `a` is `b` or lies above it. -/
abbrev Ancestor (f : α → Option α) : α → α → Prop := Relation.ReflTransGen (Parent f)

def Acyclic (f : α → Option α) : Prop := ∀ a, ¬Relation.TransGen (Parent f) a a

/-- The nodes of `C` get the parent `p`. -/
def adopt (f : α → Option α) (C : α → Prop) [DecidablePred C] (p : α) : α → Option α :=
  fun a => if C a then some p else f a

theorem acyclic_none : Acyclic fun _ : α => none := by
  intro a h
  obtain ⟨b, -, hb⟩ := Relation.TransGen.tail'_iff.mp h
  cases hb

/-- Fewer links keep a parent map acyclic. -/
theorem Acyclic.mono {f g : α → Option α} (hf : Acyclic f)
    (h : ∀ a b, g b = some a → f b = some a) :
    Acyclic g := by
  intro a ha
  exact hf a (Relation.TransGen.mono (fun b c hbc => h b c hbc) a a ha)

theorem ancestor_iff {f : α → Option α} {a b : α} :
    Ancestor f a b ↔ a = b ∨ ∃ p, f b = some p ∧ Ancestor f a p := by
  constructor
  · intro h
    rcases Relation.ReflTransGen.cases_tail h with h | ⟨p, hp, hb⟩
    · exact .inl h.symm
    · exact .inr ⟨p, hb, hp⟩
  · rintro (rfl | ⟨p, hb, hp⟩)
    · exact .refl
    · exact hp.tail hb

theorem Ancestor.congr {f g : α → Option α} {a b : α} (h : Ancestor f a b)
    (hfg : ∀ x, Ancestor f x b → f x = g x) : Ancestor g a b := by
  induction h with
  | refl => exact .refl
  | @tail b c hab hbc ih =>
      refine (ih fun x hx => hfg x (hx.tail hbc)).tail ?_
      change g c = some b
      rw [← hfg c .refl]
      exact hbc

section
variable {f : α → Option α} {C : α → Prop} [DecidablePred C] {p : α}

theorem parent_adopt {a b : α} :
    Parent (adopt f C p) a b ↔ (C b ∧ a = p) ∨ (¬C b ∧ Parent f a b) := by
  unfold Parent adopt
  split
  next h => simp [h, eq_comm]
  next h => simp [h]

/-- A path of the new map is a path of the old one, or has a last new link. -/
theorem ancestor_adopt {a b : α} (h : Ancestor (adopt f C p) a b) :
    Ancestor f a b ∨ ∃ c, C c ∧ Ancestor (adopt f C p) a p ∧ Ancestor f c b := by
  induction h with
  | refl => exact .inl .refl
  | @tail b d hab hbd ih =>
      rcases parent_adopt.mp hbd with ⟨hC, rfl⟩ | ⟨-, hold⟩
      · exact .inr ⟨d, hC, hab, .refl⟩
      · rcases ih with h | ⟨c, hc, hap, hcb⟩
        · exact .inl (h.tail hold)
        · exact .inr ⟨c, hc, hap, hcb.tail hold⟩

theorem Acyclic.adopt (hf : Acyclic f) (hp : ∀ c, C c → ¬Ancestor f c p) :
    Acyclic (Forest.adopt f C p) := by
  -- above `p` the two maps agree, since a new link there would put a node of `C` above `p`
  have hold : ∀ a, Ancestor (Forest.adopt f C p) a p → Ancestor f a p := by
    intro a h
    rcases ancestor_adopt h with h | ⟨c, hc, -, hcp⟩
    · exact h
    · exact absurd hcp (hp c hc)
  intro a ha
  obtain ⟨b, hab, hba⟩ := Relation.TransGen.tail'_iff.mp ha
  rcases parent_adopt.mp hba with ⟨hC, rfl⟩ | ⟨-, hlink⟩
  · exact hp a hC (hold a hab)
  · rcases ancestor_adopt hab with h | ⟨c, hc, hap, hcb⟩
    · exact hf a (.tail' h hlink)
    · exact hp c hc ((hcb.tail hlink).trans (hold a hap))

/-- Roots may adopt a node exactly when none of them is above it. -/
theorem acyclic_adopt_iff (hf : Acyclic f) (hroot : ∀ c, C c → f c = none) :
    Acyclic (Forest.adopt f C p) ↔ ∀ c, C c → ¬Ancestor f c p := by
  refine ⟨fun h c hc hcp => ?_, hf.adopt⟩
  -- take the member of `C` nearest above `p`; the old path from it to `p` has no new link
  have hmono : ∀ x, Ancestor f c x → Ancestor (Forest.adopt f C p) c x ∨
      ∃ d, C d ∧ Ancestor (Forest.adopt f C p) d x := by
    intro x hx
    induction hx with
    | refl => exact .inl .refl
    | @tail b d hcb hbd ih =>
        have hd : ¬C d := fun hCd => by rw [Parent, hroot d hCd] at hbd; cases hbd
        have hlink : Parent (Forest.adopt f C p) b d := parent_adopt.mpr (.inr ⟨hd, hbd⟩)
        rcases ih with h | ⟨e, he, h⟩
        · exact .inl (h.tail hlink)
        · exact .inr ⟨e, he, h.tail hlink⟩
  rcases hmono p hcp with h' | ⟨d, hd, h'⟩
  · exact h c (.tail' h' (parent_adopt.mpr (.inl ⟨hc, rfl⟩)))
  · exact h d (.tail' h' (parent_adopt.mpr (.inl ⟨hd, rfl⟩)))

end

/-! ### Following parents -/

/-- The node reached by `n` links upwards, while there is one. -/
def follow (f : α → Option α) (a : α) : ℕ → Option α
  | 0 => some a
  | n + 1 => (follow f a n).bind f

theorem transGen_follow {f : α → Option α} {a b c : α} {m n : ℕ} (hmn : m < n)
    (hb : follow f a m = some b) (hc : follow f a n = some c) :
    Relation.TransGen (Parent f) c b := by
  induction n generalizing c with
  | zero => omega
  | succ n ih =>
      obtain ⟨d, hd, hcd⟩ := Option.bind_eq_some_iff.mp hc
      rcases Nat.lt_succ_iff_lt_or_eq.mp hmn with hlt | rfl
      · exact .head hcd (ih hlt hd)
      · rw [hb] at hd
        cases hd
        exact .single hcd

/-- In an acyclic map that gives finitely many nodes a parent, following parents ends. -/
theorem Acyclic.follow_ends {f : α → Option α} (hf : Acyclic f) (hfin : {a | f a ≠ none}.Finite)
    (a : α) : ∃ n, follow f a n = none := by
  by_contra hnone
  push Not at hnone
  choose node hnode using fun n => Option.ne_none_iff_exists'.mp (hnone n)
  have hinj : Function.Injective node := by
    intro m n hmn
    by_contra hne
    rcases Nat.lt_or_gt_of_ne hne with hlt | hlt
    · have h := transGen_follow hlt (hnode m) (hnode n)
      rw [hmn] at h
      exact hf _ h
    · have h := transGen_follow hlt (hnode n) (hnode m)
      rw [hmn] at h
      exact hf _ h
  refine (Set.infinite_of_injective_forall_mem hinj fun n => ?_) hfin
  have h := hnode (n + 1)
  rw [follow, hnode n] at h
  simp [Option.bind_some] at h
  simp [h]

end Forest

end Foundation
