import ResendConversation.Succession

/-! # Routing tokens

The token of a conversation is the text of an identifier that was drawn right after its own.
The text is 32 hexadecimal digits with four hyphens: removing them gives the digits, setting
them again the text, and below `16 ^ 32` different identifiers have different texts. -/

namespace ResendConversation

open Foundation JsString

variable {Digest : Type} {lower : JsString → JsString} {rt : Runtime Digest} {s : System Digest}

/-- What the letter-case mapping of the language does to ASCII text. -/
def LowersAscii (lower : JsString → JsString) : Prop :=
  ∀ s : JsString, (∀ c ∈ s, c < 128) → lower s = s.map fun c =>
    if isUpperLetter c then c + 32 else c

theorem Runtime.reference_lowersAscii : LowersAscii Runtime.reference.toLowerCase := fun _ _ => rfl

/-! ### Texts of identifiers -/

/-- The digits of an identifier. -/
def uuidDigits (id : Uuid) : JsString :=
  ((List.range 32).reverse).map fun i => hexDigit (id / 16 ^ i % 16)

theorem uuidText_eq (id : Uuid) : uuidText id = hyphenate (uuidDigits id) := rfl

/-- A digit is one of `0-9a-f`. -/
theorem hexDigit_spec : ∀ n < 16,
    (isDigit (hexDigit n) || (97 ≤ hexDigit n && hexDigit n ≤ 102)) = true := by decide

theorem hexDigit_injective : ∀ m < 16, ∀ n < 16, hexDigit m = hexDigit n → m = n := by decide

theorem mem_uuidDigits {id : Uuid} {c : UInt16} (h : c ∈ uuidDigits id) :
    ∃ n < 16, c = hexDigit n := by
  obtain ⟨i, -, rfl⟩ := List.mem_map.mp h
  exact ⟨_, Nat.mod_lt _ (by decide), rfl⟩

theorem length_uuidDigits (id : Uuid) : (uuidDigits id).length = 32 := by
  simp [uuidDigits]

theorem isRoutingToken_uuidDigits (id : Uuid) : isRoutingToken (uuidDigits id) = true := by
  unfold isRoutingToken
  rw [length_uuidDigits, Bool.and_eq_true]
  refine ⟨rfl, List.all_eq_true.mpr fun c hc => ?_⟩
  obtain ⟨n, hn, rfl⟩ := mem_uuidDigits hc
  exact hexDigit_spec n hn

/-- The digits of a token contain no hyphen. -/
theorem hyphen_notMem_of_isRoutingToken {token : JsString} (h : isRoutingToken token = true) :
    (45 : UInt16) ∉ token := by
  intro hmem
  unfold isRoutingToken at h
  rw [Bool.and_eq_true] at h
  exact absurd (List.all_eq_true.mp h.2 45 hmem) (by decide)

/-- Removing the hyphens of a token gives its digits. -/
theorem filter_hyphenate {token : JsString} (h : (45 : UInt16) ∉ token) :
    (hyphenate token).filter (· != 45) = token := by
  have hkeep : ∀ part : JsString, part.Sublist token → part.filter (· != 45) = part := by
    intro part hpart
    refine List.filter_eq_self.mpr fun c hc => ?_
    rw [bne_iff_ne]
    rintro rfl
    exact h (hpart.subset hc)
  have hslice : ∀ i j, (slice token i j).filter (· != 45) = slice token i j := fun i j =>
    hkeep _ ((List.take_sublist _ _).trans (List.drop_sublist _ _))
  have hdrop : (token.drop 20).filter (· != 45) = token.drop 20 := hkeep _ (List.drop_sublist _ _)
  have hparts : slice token 0 8 ++ (slice token 8 12 ++ (slice token 12 16 ++
      (slice token 16 20 ++ token.drop 20))) = token := by
    have hnext : ∀ i j, i ≤ j → slice token i j ++ token.drop j = token.drop i := by
      intro i j hij
      have hsplit := List.take_append_drop (j - i) (token.drop i)
      rwa [List.drop_drop, Nat.add_sub_cancel' hij] at hsplit
    rw [hnext 16 20 (by decide), hnext 12 16 (by decide), hnext 8 12 (by decide),
      hnext 0 8 (by decide)]
    rfl
  have hyphen : ([45] : JsString).filter (· != 45) = [] := by decide
  simp only [hyphenate, join, List.filter_append, hslice, hdrop, hyphen, List.append_assoc]
  exact hparts

theorem filter_uuidText (id : Uuid) : (uuidText id).filter (· != 45) = uuidDigits id :=
  filter_hyphenate (hyphen_notMem_of_isRoutingToken (isRoutingToken_uuidDigits id))

/-- Identifiers below `16 ^ 32` have different texts. -/
theorem uuidText_injective {m n : Uuid} (hm : m < 16 ^ 32) (hn : n < 16 ^ 32)
    (h : uuidText m = uuidText n) : m = n := by
  have hdigits : uuidDigits m = uuidDigits n := by
    rw [← filter_uuidText m, ← filter_uuidText n, h]
  have hdigit : ∀ i < 32, m / 16 ^ i % 16 = n / 16 ^ i % 16 := by
    intro i hi
    have hmap := List.map_inj_left.mp hdigits i (by simpa using hi)
    exact hexDigit_injective _ (Nat.mod_lt _ (by decide)) _ (Nat.mod_lt _ (by decide)) hmap
  have hmod : ∀ k ≤ 32, m % 16 ^ k = n % 16 ^ k := by
    intro k
    induction k with
    | zero => simp [Nat.mod_one]
    | succ k ih =>
        intro hk
        rw [Nat.mod_pow_succ, Nat.mod_pow_succ, ih (Nat.le_of_succ_le hk), hdigit k hk]
  have hall := hmod 32 le_rfl
  rwa [Nat.mod_eq_of_lt hm, Nat.mod_eq_of_lt hn] at hall

/-! ### Tokens of conversations -/

/-- Every conversation has the token that was drawn after its identifier. -/
def Threads.Tokened (t : Threads) : Prop :=
  ∀ c row, t.conversations c = some row → row.routingToken = uuidText (c + 1) ∧ c + 1 < t.nextId

theorem Threads.Tokened.apply {t : Threads} (h : t.Tokened) {e : ThreadEvent}
    (he : t.Enabled lower e) :
    (t.apply e).Tokened := by
  have hconversation : ∀ d f, (∀ row : ConversationView, (f row).routingToken = row.routingToken) →
      (t.onConversation d f).Tokened := by
    intro d f hf c row' hrow'
    simp only [onConversation] at hrow'
    split at hrow'
    · obtain ⟨row, hrow, rfl⟩ := Option.map_eq_some_iff.mp hrow'
      rw [hf]
      exact h c row hrow
    · exact h c row' hrow'
  cases e with
  | drawn n => exact fun c row hrow => ⟨(h c row hrow).1, (h c row hrow).2.trans_le he⟩
  | begun c row =>
      obtain ⟨rfl, -, htoken, -⟩ := he
      intro d row' hrow'
      simp only [Threads.apply, Function.update_apply] at hrow'
      split at hrow'
      next heq =>
        cases hrow'
        subst heq
        exact ⟨htoken, Nat.lt_succ_self _⟩
      next => exact ⟨(h d row' hrow').1,
        (h d row' hrow').2.trans (Nat.lt_add_of_pos_right Nat.two_pos)⟩
  | stored id v =>
      obtain ⟨rfl, -⟩ := he
      exact fun c row hrow => ⟨(h c row hrow).1, (h c row hrow).2.trans (Nat.lt_succ_self _)⟩
  | identified id mid => exact h
  | adopted p children => exact h
  | merged target sources =>
      intro d row' hrow'
      simp only [Threads.apply] at hrow'
      split at hrow'
      · cases hrow'
      · split at hrow'
        · obtain ⟨row, hrow, rfl⟩ := Option.map_eq_some_iff.mp hrow'
          exact h d row hrow
        · exact h d row' hrow'
  | promoted c base => exact hconversation c _ fun _ => rfl
  | reopened c participant base => exact hconversation c _ fun _ => rfl
  | assigned c topic => exact hconversation c _ fun _ => rfl
  | turned c state => exact hconversation c _ fun _ => rfl
  | overridden c state => exact hconversation c _ fun _ => rfl
  | deleted c =>
      intro d row' hrow'
      simp only [Threads.apply] at hrow'
      split at hrow'
      · cases hrow'
      · exact h d row' hrow'

theorem Reachable.tokened [DecidableEq Digest] (h : Reachable rt s) : s.db.threads.Tokened :=
  h.invariant_threads (by simp [Threads.Tokened, System.initial, Database.initial, Database.threads,
    Table.empty, Table.get?]) fun _ _ _ hI he => hI.apply he

end ResendConversation
