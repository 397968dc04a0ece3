import Mathlib.Algebra.Order.Group.Nat
import Mathlib.Data.Nat.ModEq
import Mathlib.Data.List.Basic
import Mathlib.Tactic.Ring

/-! # Digits

The last `width` digits of a number in a base, the most significant first, and the value of a
sequence of digits. -/

namespace Foundation

namespace Digits

def digits (base width n : ℕ) : List ℕ := ((List.range width).reverse).map fun i =>
  n / base ^ i % base

def value (base : ℕ) (ds : List ℕ) : ℕ := ds.foldl (fun n d => n * base + d) 0

@[simp] theorem length_digits (base width n : ℕ) : (digits base width n).length = width := by
  simp [digits]

theorem digits_succ (base width n : ℕ) :
    digits base (width + 1) n = n / base ^ width % base :: digits base width n := by
  simp [digits, List.range_succ]

theorem lt_of_mem_digits {base width n d : ℕ} (hbase : 0 < base) (h : d ∈ digits base width n) :
    d < base := by
  obtain ⟨i, _, rfl⟩ := List.mem_map.mp h
  exact Nat.mod_lt _ hbase

theorem foldl_eq (base : ℕ) (ds : List ℕ) (n : ℕ) :
    ds.foldl (fun n d => n * base + d) n = n * base ^ ds.length + value base ds := by
  induction ds generalizing n with
  | nil => simp [value]
  | cons d ds ih =>
      have hvalue : value base (d :: ds) = d * base ^ ds.length + value base ds := by
        rw [value, List.foldl_cons, ih, Nat.zero_mul, Nat.zero_add]
      rw [List.foldl_cons, ih, hvalue, List.length_cons, pow_succ]
      ring

theorem value_cons (base d : ℕ) (ds : List ℕ) :
    value base (d :: ds) = d * base ^ ds.length + value base ds := by
  rw [value, List.foldl_cons, foldl_eq, Nat.zero_mul, Nat.zero_add]

theorem value_digits (base width n : ℕ) : value base (digits base width n) = n % base ^ width := by
  induction width with
  | zero => simp [digits, value, Nat.mod_one]
  | succ width ih =>
      rw [digits_succ, value_cons, length_digits, ih, Nat.mod_pow_succ]
      ring

/-- A number that has no more than `width` digits is read back. -/
theorem value_digits_of_lt {base width n : ℕ} (h : n < base ^ width) :
    value base (digits base width n) = n := by
  rw [value_digits, Nat.mod_eq_of_lt h]

end Digits

end Foundation
