import ResendConversation.Proper

/-! # Conversations over time

What becomes of a conversation in a step that deletes none.  It has an heir, itself or the
survivor of the merge that it went into, and the heir holds all of its messages
(`Threads.Inherits`).  What the heir keeps of the row is a `Succession`: its topic, version and
Reply-To base, the state that ends it, or its participant. -/

namespace ResendConversation

open Foundation Tx

variable {Digest : Type} {lower : JsString → JsString}

/-! ### Heirs -/

/-- What a row and its successor have in common: `K true` while the conversation stays,
`K false` after it was merged into another. -/
class Succession (K : Bool → ConversationView → ConversationView → Prop) : Prop where
  refl : ∀ row, K true row row
  comp : ∀ {a b row row' row''}, K a row row' → K b row' row'' → K (a && b) row row''

/-- The row `row'` of `c'` succeeds the row `row` of `c`. -/
structure Threads.Heir (K : Bool → ConversationView → ConversationView → Prop) (t t' : Threads)
    (c : Uuid) (row : ConversationView) (c' : Uuid) (row' : ConversationView) : Prop where
  found : t'.conversations c' = some row'
  lt : c' < t'.nextId
  gone : c' ≠ c → t'.conversations c = none
  succeeds : K (c' == c) row row'
  messages : ∀ k v, t.messages k = some v → v.conversationId = some c →
    ∃ v', t'.messages k = some v' ∧ v'.conversationId = some c'

/-- No message is lost, and each conversation has an heir. -/
structure Threads.Inherits (K : Bool → ConversationView → ConversationView → Prop)
    (t t' : Threads) :
    Prop where
  later : t.Later t'
  stored : ∀ k, (t.messages k).isSome → (t'.messages k).isSome
  heir : ∀ c row, c < t.nextId → t.conversations c = some row → ∃ c' row', t.Heir K t' c row c' row'

section
variable {K : Bool → ConversationView → ConversationView → Prop} [Succession K]

theorem Threads.Heir.refl {t : Threads} {c : Uuid} {row : ConversationView} (hlt : c < t.nextId)
    (hrow : t.conversations c = some row) : t.Heir K t c row c row where
  found := hrow
  lt := hlt
  gone := fun hne => absurd rfl hne
  succeeds := by
    rw [beq_self_eq_true]
    exact Succession.refl row
  messages := fun _ v hv hc => ⟨v, hv, hc⟩

theorem Threads.Heir.trans {t t' t'' : Threads} {c c' c'' : Uuid}
    {row row' row'' : ConversationView} (h : t.Heir K t' c row c' row')
    (h' : t'.Heir K t'' c' row' c'' row'') (hl : t.Later t') (hl' : t'.Later t'')
    (hlt : c < t.nextId) : t.Heir K t'' c row c'' row'' where
  found := h'.found
  lt := h'.lt
  gone := by
    intro hne
    by_cases heq : c' = c
    · subst heq
      exact h'.gone hne
    · -- a conversation that is gone does not come back
      cases hrow : t''.conversations c with
      | none => rfl
      | some old =>
          obtain ⟨old', hold', -⟩ := hl'.conversation c old (hlt.trans_le hl.nextId_le) hrow
          rw [h.gone heq] at hold'
          cases hold'
  succeeds := by
    have hboth : (c'' == c) = (c' == c && c'' == c') := by
      by_cases heq : c' = c
      · rw [heq, beq_self_eq_true, Bool.true_and]
      · have hne : c'' ≠ c := by
          rintro rfl
          obtain ⟨old', hold', -⟩ := hl'.conversation c'' row'' (hlt.trans_le hl.nextId_le) h'.found
          rw [h.gone heq] at hold'
          cases hold'
        rw [beq_eq_false_iff_ne.mpr hne, beq_eq_false_iff_ne.mpr heq, Bool.false_and]
    rw [hboth]
    exact Succession.comp h.succeeds h'.succeeds
  messages := by
    intro k v hv hc
    obtain ⟨v', hv', hc'⟩ := h.messages k v hv hc
    exact h'.messages k v' hv' hc'

instance : Std.Refl (Threads.Inherits K) where
  refl t := ⟨Std.Refl.refl t, fun _ h => h, fun c row hlt hrow => ⟨c, row, .refl hlt hrow⟩⟩

instance : IsTrans Threads (Threads.Inherits K) where
  trans t t' t'' h h' :=
    { later := IsTrans.trans _ _ _ h.later h'.later
      stored := fun k hk => h'.stored k (h.stored k hk)
      heir := by
        intro c row hlt hrow
        obtain ⟨c', row', hheir⟩ := h.heir c row hlt hrow
        obtain ⟨c'', row'', hheir'⟩ := h'.heir c' row' hheir.lt hheir.found
        exact ⟨c'', row'', hheir.trans hheir' h.later h'.later hlt⟩ }

end

/-! ### Events -/

/-- The event keeps, of each conversation, what the succession asks for. -/
structure Threads.Respects (K : Bool → ConversationView → ConversationView → Prop) (t : Threads)
    (e : ThreadEvent) : Prop where
  stays : ∀ c row row', t.conversations c = some row → (t.apply e).conversations c = some row' →
    K true row row'
  absorbed : ∀ target sources, e = .merged target sources → ∀ s ∈ sources, ∀ source row',
    t.conversations s = some source → (t.apply e).conversations target = some row' →
      K false source row'

namespace Threads

variable {t : Threads} {K : Bool → ConversationView → ConversationView → Prop} [Succession K]

/-- A rewrite of one conversation. -/
theorem stays_onConversation {c : Uuid} {f : ConversationView → ConversationView}
    (hf : ∀ row, t.conversations c = some row → K true row (f row)) :
    ∀ d row row', t.conversations d = some row →
      (t.onConversation c f).conversations d = some row' → K true row row' := by
  intro d row row' hrow hrow'
  simp only [onConversation] at hrow'
  split at hrow'
  next heq =>
    rw [heq] at hrow hrow'
    rw [hrow] at hrow'
    cases hrow'
    exact hf row hrow
  next =>
    obtain rfl : row = row' := Option.some.inj (hrow.symm.trans hrow')
    exact Succession.refl row

/-- An event that leaves the conversations alone. -/
theorem stays_of_eq {t' : Threads} (h : t'.conversations = t.conversations) :
    ∀ c row row', t.conversations c = some row → t'.conversations c = some row' →
      K true row row' := by
  intro c row row' hrow hrow'
  obtain rfl : row = row' := Option.some.inj (hrow.symm.trans (h ▸ hrow'))
  exact Succession.refl row

theorem stays_begun {c : Uuid} {new : ConversationView} (he : t.Enabled lower (.begun c new)) :
    ∀ d row row', t.conversations d = some row →
      (t.apply (.begun c new)).conversations d = some row' → K true row row' := by
  obtain ⟨rfl, hfresh, -⟩ := he
  intro d row row' hrow hrow'
  have hne : d ≠ t.nextId := by
    rintro rfl
    rw [hfresh] at hrow
    cases hrow
  simp only [apply, Function.update_apply, if_neg hne] at hrow'
  obtain rfl : row = row' := Option.some.inj (hrow.symm.trans hrow')
  exact Succession.refl row

theorem stays_merged {target : Uuid} {sources : List Uuid}
    (hf : ∀ row, t.conversations target = some row → K true row (row.merge (t.rows sources))) :
    ∀ d row row', t.conversations d = some row →
      (t.apply (.merged target sources)).conversations d = some row' → K true row row' := by
  intro d row row' hrow hrow'
  simp only [apply] at hrow'
  split at hrow'
  · cases hrow'
  · split at hrow'
    next heq =>
      rw [hrow] at hrow'
      cases hrow'
      exact hf row (heq ▸ hrow)
    next =>
      obtain rfl : row = row' := Option.some.inj (hrow.symm.trans hrow')
      exact Succession.refl row

omit [Succession K] in
theorem absorbed_merged {target : Uuid} {sources : List Uuid}
    (he : t.Enabled lower (.merged target sources))
    (hf : ∀ row, t.conversations target = some row → ∀ s ∈ sources, ∀ source,
      t.conversations s = some source → K false source (row.merge (t.rows sources))) :
    ∀ target' sources', ThreadEvent.merged target sources = .merged target' sources' →
      ∀ s ∈ sources',
      ∀ source row', t.conversations s = some source →
        (t.apply (.merged target sources)).conversations target' = some row' →
          K false source row' := by
  rintro _ _ ⟨rfl, rfl⟩ c hc source row' hsource hrow'
  obtain ⟨-, hnot, row, hrow, -⟩ := he
  simp only [apply, if_neg hnot, if_true, hrow, Option.map_some, Option.some.injEq] at hrow'
  rw [← hrow']
  exact hf row hrow c hc source hsource

omit [Succession K] in
/-- An event that merges nothing. -/
theorem Respects.of_stays {e : ThreadEvent} (hmerged : ∀ target sources, e ≠ .merged target sources)
    (h : ∀ c row row', t.conversations c = some row → (t.apply e).conversations c = some row' →
      K true row row') : t.Respects K e :=
  ⟨h, fun target sources heq => absurd heq (hmerged target sources)⟩

end Threads

/-- Every conversation has an identifier that was drawn. -/
def Threads.Drawn (t : Threads) : Prop := ∀ c row, t.conversations c = some row → c < t.nextId

theorem Threads.Drawn.apply {t : Threads} (h : t.Drawn) {e : ThreadEvent} (he : t.Enabled lower e) :
    (t.apply e).Drawn := by
  have hconversation : ∀ c f, (t.onConversation c f).Drawn := by
    intro c f d row' hrow'
    simp only [onConversation] at hrow'
    split at hrow'
    · obtain ⟨row, hrow, -⟩ := Option.map_eq_some_iff.mp hrow'
      exact h d row hrow
    · exact h d row' hrow'
  cases e with
  | drawn n => exact fun c row hrow => (h c row hrow).trans_le he
  | begun c row =>
      obtain ⟨rfl, -⟩ := he
      intro d row' hrow'
      have hlt : t.nextId < t.nextId + 2 := Nat.lt_add_of_pos_right Nat.two_pos
      simp only [Threads.apply, Function.update_apply] at hrow'
      split at hrow'
      next heq => exact heq.trans_lt hlt
      next => exact (h d row' hrow').trans hlt
  | stored id v =>
      obtain ⟨rfl, -⟩ := he
      exact fun c row hrow => (h c row hrow).trans (Nat.lt_succ_self _)
  | identified id mid => exact h
  | adopted p children => exact h
  | merged target sources =>
      intro d row' hrow'
      simp only [Threads.apply] at hrow'
      split at hrow'
      · cases hrow'
      · split at hrow'
        · obtain ⟨row, hrow, -⟩ := Option.map_eq_some_iff.mp hrow'
          exact h d row hrow
        · exact h d row' hrow'
  | promoted c base => exact hconversation c _
  | reopened c participant base => exact hconversation c _
  | assigned c topic => exact hconversation c _
  | turned c state => exact hconversation c _
  | overridden c state => exact hconversation c _
  | deleted c =>
      intro d row' hrow'
      simp only [Threads.apply] at hrow'
      split at hrow'
      · cases hrow'
      · exact h d row' hrow'

namespace Threads

variable {t : Threads}

/-- A conversation stays, with its messages, unless it is deleted or merged into another. -/
theorem stays_apply {e : ThreadEvent} (he : t.Enabled lower e) {c : Uuid} {row : ConversationView}
    (hlt : c < t.nextId) (hrow : t.conversations c = some row) (hdeleted : ∀ d, e ≠ .deleted d)
    (hmerged : ∀ target sources, e = .merged target sources → c ∉ sources) :
    ((t.apply e).conversations c).isSome ∧ ∀ k v, t.messages k = some v →
      v.conversationId = some c →
      ∃ v', (t.apply e).messages k = some v' ∧ v'.conversationId = some c := by
  have hkeep : ∀ k v, t.messages k = some v → v.conversationId = some c →
      ∃ v', t.messages k = some v' ∧ v'.conversationId = some c := fun _ v hv hc => ⟨v, hv, hc⟩
  have hsome : (t.conversations c).isSome := by rw [hrow]; rfl
  have hconversation : ∀ d f, ((t.onConversation d f).conversations c).isSome := by
    intro d f
    simp only [onConversation]
    split
    · rwa [Option.isSome_map]
    · exact hsome
  cases e with
  | drawn n => exact ⟨hsome, hkeep⟩
  | begun d row' =>
      obtain ⟨rfl, -⟩ := he
      refine ⟨?_, hkeep⟩
      simp only [apply, Function.update_apply, if_neg hlt.ne]
      exact hsome
  | stored id v' =>
      obtain ⟨rfl, hfresh, -⟩ := he
      refine ⟨hsome, fun k v hv hc => ⟨v, ?_, hc⟩⟩
      have hne : k ≠ t.nextId := by
        rintro rfl
        rw [hfresh] at hv
        cases hv
      simpa only [apply, Function.update_apply, if_neg hne] using hv
  | identified id mid =>
      refine ⟨hsome, fun k v hv hc => ?_⟩
      by_cases hk : k = id
      · subst hk
        exact ⟨{ v with internetMessageId := some mid }, by simp [apply, onMessage, hv], hc⟩
      · exact ⟨v, by simpa [apply, onMessage, hk] using hv, hc⟩
  | adopted p children =>
      refine ⟨hsome, fun k v hv hc => ?_⟩
      by_cases hk : k ∈ children
      · exact ⟨{ v with parentMessageId := some p }, by simp [apply, hv, hk], hc⟩
      · exact ⟨v, by simp [apply, hv, hk], hc⟩
  | merged target sources =>
      have hnot := hmerged target sources rfl
      refine ⟨?_, fun k v hv hc => ⟨v.move target sources, by simp [apply, hv], ?_⟩⟩
      · simp only [apply, if_neg hnot]
        split
        · rwa [Option.isSome_map]
        · exact hsome
      · rw [ThreadView.move_of_notMem hc hnot]
        exact hc
  | promoted d base => exact ⟨hconversation d _, hkeep⟩
  | reopened d participant base => exact ⟨hconversation d _, hkeep⟩
  | assigned d topic => exact ⟨hconversation d _, hkeep⟩
  | turned d state => exact ⟨hconversation d _, hkeep⟩
  | overridden d state => exact ⟨hconversation d _, hkeep⟩
  | deleted d => exact absurd rfl (hdeleted d)

/-- No message is lost without a deletion. -/
theorem stored_apply {e : ThreadEvent} (hdeleted : ∀ d, e ≠ .deleted d) {k : Uuid}
    (hk : (t.messages k).isSome) : ((t.apply e).messages k).isSome := by
  cases e with
  | stored id v =>
      by_cases h : k = id
      · simp [apply, h]
      · simpa [apply, h] using hk
  | identified id mid =>
      by_cases h : k = id
      · subst h
        simpa [apply, onMessage] using hk
      · simpa [apply, onMessage, h] using hk
  | adopted p children => simpa [apply] using hk
  | merged target sources => simpa [apply] using hk
  | deleted d => exact absurd rfl (hdeleted d)
  | drawn n => exact hk
  | begun d row => exact hk
  | promoted d base => exact hk
  | reopened d participant base => exact hk
  | assigned d topic => exact hk
  | turned d state => exact hk
  | overridden d state => exact hk

variable {K : Bool → ConversationView → ConversationView → Prop}

/-- The target of a merge is the heir of its sources. -/
theorem heir_merged (hdrawn : t.Drawn) {target : Uuid} {sources : List Uuid}
    (he : t.Enabled lower (.merged target sources)) (hK : t.Respects K (.merged target sources))
    {c : Uuid} (hc : c ∈ sources) {row : ConversationView} (hrow : t.conversations c = some row) :
    ∃ row', t.Heir K (t.apply (.merged target sources)) c row target row' := by
  obtain ⟨-, hnot, old, hold, -⟩ := he
  have hne : target ≠ c := fun heq => hnot (heq ▸ hc)
  have hsurvivor : (t.apply (.merged target sources)).conversations target =
      some (old.merge (t.rows sources)) := by
    simp [apply, hnot, hold]
  refine ⟨old.merge (t.rows sources), hsurvivor, hdrawn target old hold, fun _ => by
    simp [apply, hc], ?_, fun k v hv hvc => ⟨v.move target sources, by simp [apply, hv], ?_⟩⟩
  · rw [beq_eq_false_iff_ne.mpr hne]
    exact hK.absorbed target sources rfl c hc row _ hrow hsurvivor
  · have hany : v.conversationId.any sources.contains = true := by simp [hvc, hc]
    simp [ThreadView.move, hany]

/-- Every event but a deletion leaves each conversation an heir. -/
theorem inherits_apply {e : ThreadEvent} (hdrawn : t.Drawn) (he : t.Enabled lower e)
    (hdeleted : ∀ d, e ≠ .deleted d) (hK : t.Respects K e) : t.Inherits K (t.apply e) where
  later := later_apply he
  stored := fun _ => stored_apply hdeleted
  heir := by
    intro c row hlt hrow
    by_cases habsorbed : ∃ target sources, e = .merged target sources ∧ c ∈ sources
    · obtain ⟨target, sources, rfl, hc⟩ := habsorbed
      obtain ⟨row', hheir⟩ := heir_merged hdrawn he hK hc hrow
      exact ⟨target, row', hheir⟩
    · have hmerged : ∀ target sources, e = .merged target sources → c ∉ sources :=
        fun target sources heq hc => habsorbed ⟨target, sources, heq, hc⟩
      obtain ⟨hsome, hmessages⟩ := stays_apply he hlt hrow hdeleted hmerged
      obtain ⟨row', hrow'⟩ := Option.isSome_iff_exists.mp hsome
      refine ⟨c, row', hrow', hlt.trans_le (later_apply he).nextId_le, fun hne => absurd rfl hne,
        ?_, hmessages⟩
      rw [beq_self_eq_true]
      exact hK.stays c row row' hrow hrow'

/-- A history without a deletion leaves each conversation an heir. -/
theorem inherits_of_explains [Succession K] {P : ThreadEvent → Prop} {I : Threads → Prop}
    {t' : Threads} (h : (threading lower).Explains P t t') (hdrawn : t.Drawn) (hI : I t)
    (hstep : ∀ t e, P e → I t → t.Enabled lower e → I (t.apply e) ∧ (∀ d, e ≠ .deleted d) ∧
      t.Respects K e) :
    t.Inherits K t' := by
  refine (h.relates (I := fun t => t.Drawn ∧ I t) (R := Inherits K) ⟨hdrawn, hI⟩
    fun t e hP hI he => ?_).2
  obtain ⟨hI', hdeleted, hK⟩ := hstep t e hP hI.2 he
  exact ⟨⟨hI.1.apply he, hI'⟩, inherits_apply hI.1 he hdeleted hK⟩

end Threads

theorem Database.Sound.drawn {db : Database Digest} (h : db.Sound) : db.threads.Drawn := by
  intro c row hrow
  obtain ⟨conversation, hget, -⟩ := Option.map_eq_some_iff.mp hrow
  have hlt := h.conversationId_lt conversation (Table.mem_of_get? hget)
  rwa [Table.key_of_get? hget] at hlt

end ResendConversation
