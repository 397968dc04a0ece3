import Mathlib.Algebra.GroupWithZero.Nat
import Mathlib.Data.List.Nodup
import Mathlib.Data.Int.Order.Basic

/-! # Idempotent services

A service that accepts requests under idempotency keys and remembers each key for a fixed
time: while an acceptance is remembered, no second request is accepted under its key.  The
service forgets, so uniqueness over all time is a matter of its clients.
`Service.nodup_accept` is their obligation: when the requests under every key arrive within
one window that is no longer than the memory, no key is ever accepted twice. -/

namespace Foundation

/-- One accepted request: its key, the time of its acceptance and its content. -/
structure Acceptance (κ β : Type) where
  key : κ
  at_ : ℤ
  content : β
deriving DecidableEq

namespace Service

variable {κ β : Type}

/-- Whether the service still remembers an acceptance under the key. -/
def Remembers (memory : ℤ) (log : List (Acceptance κ β)) (key : κ) (now : ℤ) : Prop :=
  ∃ a ∈ log, a.key = key ∧ now < a.at_ + memory

instance [DecidableEq κ] (memory : ℤ) (log : List (Acceptance κ β)) (key : κ) (now : ℤ) :
    Decidable (Remembers memory log key now) :=
  inferInstanceAs (Decidable (∃ a ∈ log, a.key = key ∧ now < a.at_ + memory))

/-- A request that arrives within `memory` of every earlier acceptance of its key is
accepted only if there is none. -/
theorem nodup_accept {memory : ℤ} {log : List (Acceptance κ β)} {a : Acceptance κ β}
    (h : (log.map Acceptance.key).Nodup) (hfresh : ¬Remembers memory log a.key a.at_)
    (hwindow : ∀ b ∈ log, b.key = a.key → a.at_ < b.at_ + memory) :
    ((log ++ [a]).map Acceptance.key).Nodup := by
  rw [List.map_append, List.map_singleton]
  refine h.append (List.nodup_singleton _) ?_
  intro k hk hk'
  obtain ⟨b, hb, rfl⟩ := List.mem_map.mp hk
  have hkey : b.key = a.key := by simpa using hk'
  exact hfresh ⟨b, hb, hkey, hwindow b hb hkey⟩

/-- When no key is accepted twice, and every item is only ever requested under one key, no item is
accepted twice. -/
theorem sum_count_le_one {ι : Type} [DecidableEq ι] (items : β → List ι)
    {log : List (Acceptance κ β)} (h : (log.map Acceptance.key).Nodup)
    (hitems : ∀ a ∈ log, (items a.content).Nodup)
    (hkey : ∀ a ∈ log, ∀ b ∈ log, ∀ i, i ∈ items a.content → i ∈ items b.content → a.key = b.key)
    (i : ι) :
    (log.map fun a => (items a.content).count i).sum ≤ 1 := by
  induction log with
  | nil => exact Nat.zero_le 1
  | cons a log ih =>
      rw [List.map_cons, List.nodup_cons] at h
      have htail := ih h.2 (fun b hb => hitems b (List.mem_cons_of_mem _ hb))
        fun b hb c hc => hkey b (List.mem_cons_of_mem _ hb) c (List.mem_cons_of_mem _ hc)
      rw [List.map_cons, List.sum_cons]
      by_cases hi : i ∈ items a.content
      · have hnone : ∀ b ∈ log, (items b.content).count i = 0 := by
          intro b hb
          refine List.count_eq_zero.mpr fun hib => h.1 ?_
          rw [hkey a List.mem_cons_self b (List.mem_cons_of_mem _ hb) i hi hib]
          exact List.mem_map.mpr ⟨b, hb, rfl⟩
        have hzero : (log.map fun b => (items b.content).count i).sum = 0 := by
          refine List.sum_eq_zero_iff_forall_eq_nat.mpr fun n hn => ?_
          obtain ⟨b, hb, rfl⟩ := List.mem_map.mp hn
          exact hnone b hb
        have hone := List.nodup_iff_count_le_one.mp (hitems a List.mem_cons_self) i
        omega
      · rw [List.count_eq_zero.mpr hi]
        omega

end Service

end Foundation
