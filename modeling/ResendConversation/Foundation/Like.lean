import Mathlib.Data.List.Basic

/-! # LIKE patterns

The pattern matching of SQL over code points.  In a pattern `%` stands for any text, `_` for
one character and a backslash for the character after it; a pattern that ends with a backslash
is refused as soon as some text is left to compare with it (`like = none`).  A pattern without
these three characters matches itself and nothing else (`like_of_plain`). -/

namespace Foundation

/-- The characters with a meaning of their own in a pattern: `%`, `_` and the backslash. -/
def isLikeSpecial (c : ℕ) : Bool := c == 37 || c == 95 || c == 92

inductive LikeToken where
  | any
  | one
  | char (c : ℕ)
  /-- A backslash with nothing after it. -/
  | dangling

def likeToken (p : ℕ) : LikeToken :=
  if p == 37 then .any else if p == 95 then .one else if p == 92 then .dangling else .char p

def likeTokens : List ℕ → List LikeToken
  | [] => []
  | [p] => [likeToken p]
  | p :: q :: pattern =>
      if p == 92 then .char q :: likeTokens pattern else likeToken p :: likeTokens (q :: pattern)

/-- Whether the tokens match the text, or `none` where they are refused. -/
def matchTokens : List LikeToken → List ℕ → Option Bool
  | [], text => some text.isEmpty
  | .any :: tokens, text =>
      ((text.tails.map (matchTokens tokens)).find? (· != some false)).getD (some false)
  | .one :: _, [] => some false
  | .one :: tokens, _ :: text => matchTokens tokens text
  | .char _ :: _, [] => some false
  | .char p :: tokens, c :: text => if p == c then matchTokens tokens text else some false
  | .dangling :: _, [] => some false
  | .dangling :: _, _ :: _ => none

/-- Whether the pattern matches the text, or `none` where it is refused. -/
def like (pattern text : List ℕ) : Option Bool := matchTokens (likeTokens pattern) text

theorem likeTokens_of_plain {pattern : List ℕ}
    (h : pattern.all (fun c => !isLikeSpecial c) = true) :
    likeTokens pattern = pattern.map .char := by
  induction pattern using likeTokens.induct with
  | case1 => rfl
  | case2 p =>
      simp only [List.all_cons, List.all_nil, Bool.and_true, isLikeSpecial, Bool.not_eq_true',
        Bool.or_eq_false_iff] at h
      simp [likeTokens, likeToken, h]
  | case3 p q pattern hp =>
      simp [isLikeSpecial, hp] at h
  | case4 p q pattern _ ih =>
      rw [List.all_cons, Bool.and_eq_true] at h
      obtain ⟨hp, hpattern⟩ := h
      simp only [isLikeSpecial, Bool.not_eq_true', Bool.or_eq_false_iff] at hp
      rw [likeTokens, ih hpattern]
      simp [likeToken, hp]

theorem matchTokens_chars (pattern text : List ℕ) :
    matchTokens (pattern.map .char) text = some (decide (text = pattern)) := by
  induction pattern generalizing text with
  | nil => cases text <;> rfl
  | cons p pattern ih =>
      cases text with
      | nil => rfl
      | cons c text =>
          simp only [List.map_cons, matchTokens, ih]
          by_cases hc : p = c
          · simp [hc]
          · simp [hc, Ne.symm hc]

/-- A pattern without a character that has a meaning of its own matches itself only. -/
theorem like_of_plain {pattern : List ℕ} (h : pattern.all (fun c => !isLikeSpecial c) = true)
    (text : List ℕ) : like pattern text = some (decide (text = pattern)) := by
  rw [like, likeTokens_of_plain h, matchTokens_chars]

end Foundation
