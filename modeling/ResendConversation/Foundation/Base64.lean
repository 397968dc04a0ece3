import Mathlib.Data.List.Basic

/-! # Base 64

Octets regrouped into sextets, and back.  Two octets or one at the end give three sextets or two;
there is no padding.  The reader drops what does not fill an octet, and reads what the writer
writes (`octets_sextets`). -/

namespace Foundation

namespace Base64

def sextets : List ℕ → List ℕ
  | a :: b :: c :: s =>
      a / 4 :: (a % 4 * 16 + b / 16) :: (b % 16 * 4 + c / 64) :: c % 64 :: sextets s
  | [a, b] => [a / 4, a % 4 * 16 + b / 16, b % 16 * 4]
  | [a] => [a / 4, a % 4 * 16]
  | [] => []

def octets : List ℕ → List ℕ
  | p :: q :: r :: t :: s =>
      (p * 4 + q / 16) :: (q % 16 * 16 + r / 4) :: (r % 4 * 64 + t) :: octets s
  | [p, q, r] => [p * 4 + q / 16, q % 16 * 16 + r / 4]
  | [p, q] => [p * 4 + q / 16]
  | [_] => []
  | [] => []

theorem sextets_lt {l : List ℕ} (h : ∀ a ∈ l, a < 256) : ∀ p ∈ sextets l, p < 64 := by
  fun_induction sextets l with
  | case1 a b c s ih =>
      have ha := h a (by simp)
      have hb := h b (by simp)
      have hc := h c (by simp)
      have hs := ih fun x hx => h x (by simp [hx])
      intro p hp
      rw [List.mem_cons, List.mem_cons, List.mem_cons, List.mem_cons] at hp
      rcases hp with hp | hp | hp | hp | hp
      · omega
      · omega
      · omega
      · omega
      · exact hs p hp
  | case2 a b =>
      have ha := h a (by simp)
      have hb := h b (by simp)
      intro p hp
      simp only [List.mem_cons, List.not_mem_nil, or_false] at hp
      omega
  | case3 a =>
      have ha := h a (by simp)
      intro p hp
      simp only [List.mem_cons, List.not_mem_nil, or_false] at hp
      omega
  | case4 =>
      intro p hp
      cases hp

theorem octets_sextets {l : List ℕ} (h : ∀ a ∈ l, a < 256) : octets (sextets l) = l := by
  fun_induction sextets l with
  | case1 a b c s ih =>
      have ha := h a (by simp)
      have hb := h b (by simp)
      have hc := h c (by simp)
      have hs := ih fun x hx => h x (by simp [hx])
      rw [octets, hs]
      have h₁ : a / 4 * 4 + (a % 4 * 16 + b / 16) / 16 = a := by omega
      have h₂ : (a % 4 * 16 + b / 16) % 16 * 16 + (b % 16 * 4 + c / 64) / 4 = b := by omega
      have h₃ : (b % 16 * 4 + c / 64) % 4 * 64 + c % 64 = c := by omega
      rw [h₁, h₂, h₃]
  | case2 a b =>
      have ha := h a (by simp)
      have hb := h b (by simp)
      have h₁ : a / 4 * 4 + (a % 4 * 16 + b / 16) / 16 = a := by omega
      have h₂ : (a % 4 * 16 + b / 16) % 16 * 16 + b % 16 * 4 / 4 = b := by omega
      rw [octets, h₁, h₂]
  | case3 a =>
      have ha := h a (by simp)
      have h₁ : a / 4 * 4 + a % 4 * 16 / 16 = a := by omega
      rw [octets, h₁]
  | case4 => rfl

end Base64

end Foundation
