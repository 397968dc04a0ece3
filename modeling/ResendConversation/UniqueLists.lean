import Mathlib.Data.List.Induction
import Mathlib.Data.List.Nodup
import ResendConversation.Threading

/-! # Lists without repetition

`unique` reads a list from the left and keeps the first occurrence of every value.  Its lemmas
follow that reading: what one more value at the end adds decides each of them. -/

namespace ResendConversation

variable {α β : Type} [DecidableEq α] [DecidableEq β]

theorem mem_unique {v : α} {values : List α} : v ∈ unique values ↔ v ∈ values := by
  have hfold : ∀ seen : List α,
      v ∈ values.foldl (fun seen v => if v ∈ seen then seen else seen ++ [v]) seen ↔
        v ∈ seen ∨ v ∈ values := by
    induction values with
    | nil => simp
    | cons w ws ih =>
        intro seen
        rw [List.foldl_cons, ih]
        split
        · grind
        · grind
  simpa [unique] using hfold []

/-- One more value at the end is kept unless it occurs before. -/
theorem unique_concat (values : List α) (v : α) :
    unique (values ++ [v]) = if v ∈ values then unique values else unique values ++ [v] := by
  have hfold : unique (values ++ [v]) =
      if v ∈ unique values then unique values else unique values ++ [v] := by
    rw [unique, List.foldl_append]
    rfl
  rw [hfold]
  exact if_congr mem_unique rfl rfl

theorem nodup_unique (values : List α) : (unique values).Nodup := by
  induction values using List.reverseRecOn with
  | nil => exact List.nodup_nil
  | append_singleton values v ih =>
      rw [unique_concat]
      split
      · exact ih
      next hv =>
        refine List.nodup_append.mpr ⟨ih, List.nodup_singleton v, ?_⟩
        intro a ha b hb hab
        rw [List.mem_singleton.mp hb] at hab
        exact hv (mem_unique.mp (hab ▸ ha))

theorem unique_sublist (values : List α) : (unique values).Sublist values := by
  induction values using List.reverseRecOn with
  | nil => exact List.Sublist.refl _
  | append_singleton values v ih =>
      rw [unique_concat]
      split
      · exact ih.trans (List.sublist_append_left _ _)
      · exact ih.append_right [v]

/-- The last of the kept values is the one first met at `v`, when nothing after it is new. -/
theorem getLast?_unique {a : List α} {v : α} (hv : v ∉ a) (b : List α) :
    (unique (a ++ v :: b)).getLast? = some v ↔ ∀ w ∈ b, w = v ∨ w ∈ a := by
  induction b using List.reverseRecOn with
  | nil =>
      rw [unique_concat, if_neg hv, List.getLast?_concat]
      simp
  | append_singleton b w ih =>
      have hassoc : a ++ v :: (b ++ [w]) = a ++ v :: b ++ [w] := by simp
      rw [hassoc, unique_concat]
      by_cases hw : w ∈ a ++ v :: b
      · rw [if_pos hw, ih]
        constructor
        · intro hb x hx
          cases List.mem_append.mp hx with
          | inl hx => exact hb x hx
          | inr hx =>
              obtain rfl := List.mem_singleton.mp hx
              cases List.mem_append.mp hw with
              | inl ha => exact .inr ha
              | inr hvb =>
                  cases List.mem_cons.mp hvb with
                  | inl heq => exact .inl heq
                  | inr hmem => exact hb x hmem
        · exact fun hb x hx => hb x (List.mem_append_left _ hx)
      · rw [if_neg hw, List.getLast?_concat]
        have hne : w ≠ v := fun heq => hw (by simp [heq])
        constructor
        · intro heq
          exact absurd (Option.some.inj heq) hne
        · intro hb
          cases hb w (by simp) with
          | inl heq => exact absurd heq hne
          | inr ha => exact absurd (List.mem_append_left _ ha) hw

theorem unique_filter (p : α → Bool) (values : List α) :
    unique (values.filter p) = (unique values).filter p := by
  induction values using List.reverseRecOn with
  | nil => rfl
  | append_singleton values v ih =>
      rw [List.filter_append, unique_concat]
      by_cases hp : p v = true
      · have hmem : v ∈ values.filter p ↔ v ∈ values := by simp [hp]
        have hone : [v].filter p = [v] := by simp [hp]
        rw [hone, unique_concat, ih]
        by_cases hv : v ∈ values
        · rw [if_pos (hmem.mpr hv), if_pos hv]
        · rw [if_neg (fun h => hv (hmem.mp h)), if_neg hv, List.filter_append, hone]
      · have hnone : [v].filter p = [] := by simp [hp]
        rw [hnone, List.append_nil, ih]
        split
        · rfl
        · rw [List.filter_append, hnone, List.append_nil]

theorem unique_map {f : α → β} {values : List α}
    (hf : ∀ a ∈ values, ∀ b ∈ values, f a = f b → a = b) :
    unique (values.map f) = (unique values).map f := by
  induction values using List.reverseRecOn with
  | nil => rfl
  | append_singleton values v ih =>
      have ih := ih fun a ha b hb => hf a (by simp [ha]) b (by simp [hb])
      have hmem : f v ∈ values.map f ↔ v ∈ values := by
        constructor
        · intro h
          obtain ⟨w, hw, heq⟩ := List.mem_map.mp h
          have hwv : w = v := hf w (by simp [hw]) v (by simp) heq
          exact hwv ▸ hw
        · exact List.mem_map_of_mem
      rw [List.map_append, List.map_singleton, unique_concat, unique_concat, ih]
      by_cases hv : v ∈ values
      · rw [if_pos (hmem.mpr hv), if_pos hv]
      · rw [if_neg (fun h => hv (hmem.mp h)), if_neg hv, List.map_append, List.map_singleton]

end ResendConversation
