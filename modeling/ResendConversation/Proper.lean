import ResendConversation.ThreadRuns

/-! # Proper threads

What holds of the threads after every history: a message and its parent are in one
conversation, an inbound message is in a conversation with its sender, a conversation without
a topic is V2 only with a fixed Reply-To base, and the allowlist is required only with one.
Each event keeps all of it, so every reachable database has proper threads. -/

namespace ResendConversation

open Foundation Tx

variable {Digest : Type} {lower : JsString → JsString}

/-- What a conversation keeps of its Reply-To base. -/
structure ConversationView.Based (row : ConversationView) : Prop where
  version : row.apiVersion = some .v2 → row.topicType = none → row.replyToBaseAddress.isSome
  allowlist : row.replyToRequiresAllowlist = true → row.replyToBaseAddress.isSome

structure Threads.Proper (lower : JsString → JsString) (t : Threads) : Prop where
  placed : ∀ k v c, t.messages k = some v → v.conversationId = some c → (t.conversations c).isSome
  parent : ∀ k v p, t.messages k = some v → v.parentMessageId = some p →
    ∃ w, t.messages p = some w ∧ v.conversationId.isSome ∧ w.conversationId = v.conversationId
  homed : ∀ k v, t.messages k = some v → v.direction = .inbound → v.conversationId.isSome
  sender : ∀ k v c row, t.messages k = some v → v.direction = .inbound → v.conversationId = some c →
    t.conversations c = some row → lower row.participantAddress = lower v.fromAddress
  based : ∀ c row, t.conversations c = some row → row.Based

/-! ### The survivor of a merge -/

namespace ConversationView

variable {target : ConversationView} {sources : List ConversationView}

/-- A base that is fixed stays. -/
theorem merge_base {base : JsString} (h : target.replyToBaseAddress = some base) :
    (target.merge sources).replyToBaseAddress = some base := by
  simp [merge, h]

/-- The base of a source is the base of the survivor, unless that has its own. -/
theorem merge_base_isSome {source : ConversationView} (hs : source ∈ sources)
    (hbase : source.replyToBaseAddress.isSome) :
    (target.merge sources).replyToBaseAddress.isSome := by
  have hfind : ∃ selected, ((sources.find? fun s => s.apiVersion == some .v2 &&
      s.replyToBaseAddress.isSome).or (sources.find? fun s => s.replyToBaseAddress.isSome)) =
        some selected ∧ selected.replyToBaseAddress.isSome := by
    cases hp : sources.find? fun s => s.apiVersion == some .v2 && s.replyToBaseAddress.isSome with
    | some promoted =>
        have hpromoted := List.find?_some hp
        simp only [Bool.and_eq_true] at hpromoted
        exact ⟨promoted, rfl, hpromoted.2⟩
    | none =>
        have hex : (sources.find? fun s => s.replyToBaseAddress.isSome).isSome :=
          List.find?_isSome.mpr ⟨source, hs, hbase⟩
        obtain ⟨selected, hselected⟩ := Option.isSome_iff_exists.mp hex
        exact ⟨selected, by rw [hselected]; rfl, by simpa using List.find?_some hselected⟩
  obtain ⟨selected, heq, hsome⟩ := hfind
  obtain ⟨base, hb⟩ := Option.isSome_iff_exists.mp hsome
  cases ht : target.replyToBaseAddress with
  | some b => simp [merge, ht]
  | none => simp [merge, ht, heq, hb]

/-- The survivor is V2 exactly if it was, or if a source was V2 with a base, or if no row before
the first versioned source has a version. -/
theorem merge_version (h : target.apiVersion = some .v2 ∨
    ∃ source ∈ sources, source.apiVersion = some .v2 ∧ source.replyToBaseAddress.isSome) :
    (target.merge sources).apiVersion = some .v2 := by
  unfold merge
  dsimp only
  refine if_pos (h.imp id fun hs => ?_)
  obtain ⟨source, hs, hv, hb⟩ := hs
  exact List.find?_isSome.mpr ⟨source, hs, by simp [hv, hb]⟩

/-- The version of the survivor comes from one of the rows. -/
theorem version_of_merge (h : (target.merge sources).apiVersion = some .v2) :
    target.apiVersion = some .v2 ∨ ∃ source ∈ sources, source.apiVersion = some .v2 := by
  unfold merge at h
  dsimp only at h
  split at h
  next hcase =>
    refine hcase.imp id fun hs => ?_
    obtain ⟨source, hsource⟩ := Option.isSome_iff_exists.mp hs
    have hp := List.find?_some hsource
    simp only [Bool.and_eq_true, beq_iff_eq] at hp
    exact ⟨source, List.mem_of_find?_eq_some hsource, hp.1⟩
  next =>
    cases ht : target.apiVersion with
    | some version =>
        rw [ht] at h
        exact .inl h
    | none =>
        rw [ht, Option.none_or] at h
        obtain ⟨source, hs, hv⟩ := List.exists_of_findSome?_eq_some h
        exact .inr ⟨source, hs, hv⟩

/-- A source of a merge has no topic. -/
theorem Based.merge (ht : target.Based)
    (hs : ∀ source ∈ sources, source.Based ∧ source.topicType = none) :
    (target.merge sources).Based where
  version := by
    intro hv htopic
    rcases version_of_merge hv with htarget | ⟨source, hsource, hv'⟩
    · obtain ⟨base, hb⟩ := Option.isSome_iff_exists.mp (ht.version htarget htopic)
      rw [merge_base hb]
      rfl
    · exact merge_base_isSome hsource ((hs source hsource).1.version hv' (hs source hsource).2)
  allowlist := by
    intro hallow
    have hcase : target.replyToRequiresAllowlist = true ∨
        ∃ source ∈ sources, source.replyToBaseAddress.isSome := by
      have hflag : target.replyToRequiresAllowlist = true ∨
          (sources.find? fun s => s.apiVersion == some .v2 && s.replyToBaseAddress.isSome).any
            ConversationView.replyToRequiresAllowlist = true := by
        unfold ConversationView.merge at hallow
        dsimp only at hallow
        split_ifs at hallow
        · rw [Bool.or_eq_true, Bool.and_eq_true] at hallow
          exact hallow.imp And.right id
        · exact .inl hallow
        · rw [Bool.or_eq_true, Bool.and_eq_true] at hallow
          exact hallow.imp And.right id
        · exact .inl hallow
      refine hflag.imp id fun hany => ?_
      cases hp : sources.find? fun s => s.apiVersion == some .v2 && s.replyToBaseAddress.isSome with
      | none => simp [hp] at hany
      | some source =>
          have hsome := List.find?_some hp
          simp only [Bool.and_eq_true] at hsome
          exact ⟨source, List.mem_of_find?_eq_some hp, hsome.2⟩
    rcases hcase with htarget | ⟨source, hsource, hb⟩
    · obtain ⟨base, hb⟩ := Option.isSome_iff_exists.mp (ht.allowlist htarget)
      rw [merge_base hb]
      rfl
    · exact merge_base_isSome hsource hb

end ConversationView

theorem Threads.mem_rows {t : Threads} {sources : List Uuid} {row : ConversationView} :
    row ∈ t.rows sources ↔ ∃ s ∈ sources, t.conversations s = some row := List.mem_filterMap

namespace Threads.Proper

variable {t : Threads}

/-- An update of one conversation, whose participant changes only without inbound messages. -/
theorem onConversation (h : t.Proper lower) (c : Uuid) {f : ConversationView → ConversationView}
    (hsender : (∀ row, lower (f row).participantAddress = lower row.participantAddress) ∨
      ∀ k v, t.messages k = some v → v.conversationId = some c → v.direction = .outbound)
    (hbased : ∀ row, t.conversations c = some row → (f row).Based) :
    (t.onConversation c f).Proper lower where
  placed := by
    intro k v d hv hd
    have hsome := h.placed k v d hv hd
    simp only [Threads.onConversation]
    split
    · rwa [Option.isSome_map]
    · exact hsome
  parent := h.parent
  homed := h.homed
  sender := by
    intro k v d row' hv hin hd hrow'
    simp only [Threads.onConversation] at hrow'
    split at hrow'
    next heq =>
      obtain ⟨row, hrow, rfl⟩ := Option.map_eq_some_iff.mp hrow'
      rcases hsender with hsame | hout
      · rw [hsame row]
        exact h.sender k v d row hv hin hd hrow
      · have hdirection := hout k v hv (heq ▸ hd)
        rw [hin] at hdirection
        cases hdirection
    next => exact h.sender k v d row' hv hin hd hrow'
  based := by
    intro d row' hrow'
    simp only [Threads.onConversation] at hrow'
    split at hrow'
    next heq =>
      obtain ⟨row, hrow, rfl⟩ := Option.map_eq_some_iff.mp hrow'
      exact hbased row (heq ▸ hrow)
    next => exact h.based d row' hrow'

theorem begun (h : t.Proper lower) {c : Uuid} {row : ConversationView}
    (henabled : t.Enabled lower (.begun c row)) : (t.apply (.begun c row)).Proper lower := by
  obtain ⟨rfl, hfresh, -, hfounding⟩ := henabled
  have hnone : ∀ k v, t.messages k = some v → v.conversationId ≠ some t.nextId := by
    intro k v hv hc
    have hsome := h.placed k v _ hv hc
    rw [hfresh] at hsome
    cases hsome
  refine ⟨fun k v d hv hd => ?_, h.parent, h.homed, fun k v d row' hv hin hd hrow' => ?_,
    fun d row' hrow' => ?_⟩
  · have hne : d ≠ t.nextId := fun heq => hnone k v hv (heq ▸ hd)
    simpa only [Threads.apply, Function.update_apply, if_neg hne] using h.placed k v d hv hd
  · have hne : d ≠ t.nextId := fun heq => hnone k v hv (heq ▸ hd)
    simp only [Threads.apply, Function.update_apply, if_neg hne] at hrow'
    exact h.sender k v d row' hv hin hd hrow'
  · simp only [Threads.apply, Function.update_apply] at hrow'
    split at hrow'
    · cases hrow'
      cases hfounding with
      | inbound version topicType externalTopicId base allowlist state =>
          refine ⟨fun hv => ?_, fun ha => ?_⟩
          · rw [version] at hv
            cases hv
          · rw [allowlist] at ha
            cases ha
      | opening version topicType externalTopicId base state =>
          obtain ⟨b, hb, -⟩ := base
          have hsome : row.replyToBaseAddress.isSome := by rw [hb]; rfl
          exact ⟨fun _ _ => hsome, fun _ => hsome⟩
    · exact h.based d row' hrow'

theorem stored (h : t.Proper lower) {id : Uuid} {v : ThreadView}
    (henabled : t.Enabled lower (.stored id v)) : (t.apply (.stored id v)).Proper lower := by
  obtain ⟨rfl, hfresh, -, hplace⟩ := henabled
  -- no message has the new one for its parent
  have hold : ∀ k w, t.messages k = some w →
      (t.apply (.stored t.nextId v)).messages k = some w := by
    intro k w hw
    have hne : k ≠ t.nextId := by
      rintro rfl
      rw [hfresh] at hw
      cases hw
    simpa only [Threads.apply, Function.update_apply, if_neg hne] using hw
  have hnew : ∀ k w, (t.apply (.stored t.nextId v)).messages k = some w →
      t.messages k = some w ∨ w = v := by
    intro k w hw
    simp only [Threads.apply, Function.update_apply] at hw
    split at hw
    · exact .inr (Option.some.inj hw).symm
    · exact .inl hw
  refine ⟨fun k w d hw hd => ?_, fun k w p hw hp => ?_, fun k w hw hin => ?_,
    fun k w d row hw hin hd hrow => ?_, h.based⟩
  · rcases hnew k w hw with hw | rfl
    · exact h.placed k w d hw hd
    · rw [hd] at hplace
      obtain ⟨row, hjoins⟩ := hplace
      exact Option.isSome_iff_exists.mpr ⟨row, hjoins.found⟩
  · rcases hnew k w hw with hw | rfl
    · obtain ⟨q, hq, hsome, hsame⟩ := h.parent k w p hw hp
      exact ⟨q, hold p q hq, hsome, hsame⟩
    · cases hc : w.conversationId with
      | none =>
          rw [hc] at hplace
          rw [hplace.parent] at hp
          cases hp
      | some c =>
          rw [hc] at hplace
          obtain ⟨row, hjoins⟩ := hplace
          obtain ⟨q, hq, hqc⟩ := hjoins.parent p hp
          exact ⟨q, hold p q hq, rfl, hqc⟩
  · rcases hnew k w hw with hw | rfl
    · exact h.homed k w hw hin
    · cases hc : w.conversationId with
      | none =>
          rw [hc] at hplace
          rw [hplace.direction] at hin
          cases hin
      | some c => rfl
  · rcases hnew k w hw with hw | rfl
    · exact h.sender k w d row hw hin hd hrow
    · rw [hd] at hplace
      obtain ⟨row', hjoins⟩ := hplace
      obtain rfl : row' = row := Option.some.inj (hjoins.found.symm.trans hrow)
      exact (hjoins.inbound hin).1

/-- An update of messages that keeps their conversations, directions and senders. -/
theorem onMessages (h : t.Proper lower) {f : Uuid → ThreadView → ThreadView}
    (hconversation : ∀ k v, (f k v).conversationId = v.conversationId)
    (hdirection : ∀ k v, (f k v).direction = v.direction)
    (hfrom : ∀ k v, (f k v).fromAddress = v.fromAddress)
    (hparent : ∀ k v p, t.messages k = some v → (f k v).parentMessageId = some p →
      v.parentMessageId = some p ∨
        ∃ w, t.messages p = some w ∧ v.conversationId.isSome ∧
          w.conversationId = v.conversationId) :
    Proper lower { t with messages := fun k => (t.messages k).map (f k) } where
  placed := by
    intro k v' c hv' hc
    obtain ⟨v, hv, rfl⟩ := Option.map_eq_some_iff.mp hv'
    exact h.placed k v c hv (hconversation k v ▸ hc)
  parent := by
    intro k v' p hv' hp
    obtain ⟨v, hv, rfl⟩ := Option.map_eq_some_iff.mp hv'
    have hexists : ∃ w, t.messages p = some w ∧ v.conversationId.isSome ∧
        w.conversationId = v.conversationId :=
      (hparent k v p hv hp).elim (h.parent k v p hv) id
    obtain ⟨w, hw, hsome, hsame⟩ := hexists
    refine ⟨f p w, by simp [hw], ?_, ?_⟩
    · rw [hconversation]
      exact hsome
    · rw [hconversation, hconversation, hsame]
  homed := by
    intro k v' hv' hin
    obtain ⟨v, hv, rfl⟩ := Option.map_eq_some_iff.mp hv'
    rw [hconversation]
    exact h.homed k v hv (hdirection k v ▸ hin)
  sender := by
    intro k v' c row hv' hin hc hrow
    obtain ⟨v, hv, rfl⟩ := Option.map_eq_some_iff.mp hv'
    rw [hfrom]
    exact h.sender k v c row hv (hdirection k v ▸ hin) (hconversation k v ▸ hc) hrow
  based := h.based

theorem merged (h : t.Proper lower) {target : Uuid} {sources : List Uuid}
    (henabled : t.Enabled lower (.merged target sources)) :
    (t.apply (.merged target sources)).Proper lower := by
  obtain ⟨-, htarget, row, hrow, hsources⟩ := henabled
  have hconversations : ∀ d row', (t.apply (.merged target sources)).conversations d = some row' →
      d ∉ sources ∧ ∃ old, t.conversations d = some old ∧
        row'.participantAddress = old.participantAddress ∧ (d ≠ target → row' = old) := by
    intro d row' hrow'
    simp only [Threads.apply] at hrow'
    split at hrow'
    · cases hrow'
    next hd =>
      refine ⟨hd, ?_⟩
      split at hrow'
      next hdt =>
        obtain ⟨old, hold, rfl⟩ := Option.map_eq_some_iff.mp hrow'
        exact ⟨old, hold, rfl, fun hne => absurd hdt hne⟩
      next => exact ⟨row', hrow', rfl, fun _ => rfl⟩
  have hmove : ∀ v : ThreadView, v.move target sources = v ∨
      (∃ s ∈ sources, v.conversationId = some s) ∧
      v.move target sources = { v with conversationId := some target } := by
    intro v
    unfold ThreadView.move
    split
    next hany =>
      refine .inr ⟨?_, rfl⟩
      cases hc : v.conversationId with
      | none => simp [hc] at hany
      | some s => exact ⟨s, by simpa [hc] using hany, rfl⟩
    next => exact .inl rfl
  refine ⟨fun k v' d hv' hd => ?_, fun k v' p hv' hp => ?_, fun k v' hv' hin => ?_,
    fun k v' d row' hv' hin hd hrow' => ?_, fun d row' hrow' => ?_⟩
  · obtain ⟨v, hv, rfl⟩ := Option.map_eq_some_iff.mp hv'
    by_cases hdt : d = target
    · subst hdt
      simp [Threads.apply, htarget, hrow]
    · rcases hmove v with hsame | ⟨-, hmoved⟩
      · rw [hsame] at hd
        have hd' : d ∉ sources := by
          intro hmem
          have : v.move target sources = { v with conversationId := some target } := by
            unfold ThreadView.move
            rw [if_pos (by simp [hd, hmem])]
          rw [hsame] at this
          rw [this] at hd
          exact hdt (Option.some.inj hd).symm
        simpa [Threads.apply, hd', hdt] using h.placed k v d hv hd
      · rw [hmoved] at hd
        exact absurd (Option.some.inj hd).symm hdt
  · obtain ⟨v, hv, rfl⟩ := Option.map_eq_some_iff.mp hv'
    rw [ThreadView.move_parentMessageId] at hp
    obtain ⟨w, hw, hsome, hsame⟩ := h.parent k v p hv hp
    refine ⟨w.move target sources, by simp [Threads.apply, hw], ?_,
      ThreadView.move_conversationId_congr hsame⟩
    rcases hmove v with heq | ⟨-, heq⟩
    · rw [heq]
      exact hsome
    · rw [heq]
      rfl
  · obtain ⟨v, hv, rfl⟩ := Option.map_eq_some_iff.mp hv'
    rcases hmove v with heq | ⟨-, heq⟩
    · rw [heq] at hin ⊢
      exact h.homed k v hv hin
    · rw [heq]
      rfl
  · obtain ⟨v, hv, rfl⟩ := Option.map_eq_some_iff.mp hv'
    obtain ⟨hnot, old, hold, hparticipant, -⟩ := hconversations d row' hrow'
    rw [hparticipant]
    rcases hmove v with heq | ⟨⟨s, hs, hvs⟩, heq⟩
    · rw [heq] at hin hd ⊢
      exact h.sender k v d old hv hin hd hold
    · rw [heq] at hin hd ⊢
      obtain rfl : target = d := Option.some.inj hd
      obtain ⟨source, hsource, -, hp⟩ := hsources s hs
      obtain rfl : row = old := Option.some.inj (hrow.symm.trans hold)
      rw [← hp]
      exact h.sender k v s source hv hin hvs hsource
  · obtain ⟨hnot, old, hold, -, hkeep⟩ := hconversations d row' hrow'
    by_cases hdt : d = target
    · subst hdt
      simp only [Threads.apply, if_neg htarget, if_true, hold, Option.map_some,
        Option.some.injEq] at hrow'
      rw [← hrow']
      refine (h.based d old hold).merge fun source hsource => ?_
      obtain ⟨s, hs, hget⟩ := Threads.mem_rows.mp hsource
      obtain ⟨source', hget', htopic, -⟩ := hsources s hs
      obtain rfl : source' = source := Option.some.inj (hget'.symm.trans hget)
      exact ⟨h.based s _ hget, htopic⟩
    · rw [hkeep hdt]
      exact h.based d old hold

theorem deleted (h : t.Proper lower) (c : Uuid) : (t.apply (.deleted c)).Proper lower := by
  have hmessages : ∀ k v', (t.apply (.deleted c)).messages k = some v' →
      ∃ v, t.messages k = some v ∧ v.conversationId ≠ some c ∧
      v' = { v with parentMessageId := v.parentMessageId.filter fun p =>
        !t.inConversation c p } := by
    intro k v' hv'
    simp only [Threads.apply] at hv'
    split at hv'
    · cases hv'
    next hnot =>
      obtain ⟨v, hv, rfl⟩ := Option.map_eq_some_iff.mp hv'
      exact ⟨v, hv, by simpa [Threads.inConversation, hv] using hnot, rfl⟩
  refine ⟨fun k v' d hv' hd => ?_, fun k v' p hv' hp => ?_, fun k v' hv' hin => ?_,
    fun k v' d row hv' hin hd hrow => ?_, fun d row hrow => ?_⟩
  · obtain ⟨v, hv, hne, rfl⟩ := hmessages k v' hv'
    have hdc : d ≠ c := by
      rintro rfl
      exact hne hd
    simpa [Threads.apply, hdc] using h.placed k v d hv hd
  · obtain ⟨v, hv, hne, rfl⟩ := hmessages k v' hv'
    obtain ⟨hp, -⟩ := Option.filter_eq_some_iff.mp hp
    obtain ⟨w, hw, hsome, hsame⟩ := h.parent k v p hv hp
    have hin : t.inConversation c p = false := by
      simp only [Threads.inConversation, hw, Option.any_some, beq_eq_false_iff_ne]
      rw [hsame]
      exact hne
    exact ⟨{ w with parentMessageId := w.parentMessageId.filter fun q => !t.inConversation c q },
      by simp [Threads.apply, hin, hw], hsome, hsame⟩
  · obtain ⟨v, hv, -, rfl⟩ := hmessages k v' hv'
    exact h.homed k v hv hin
  · obtain ⟨v, hv, hne, rfl⟩ := hmessages k v' hv'
    simp only [Threads.apply] at hrow
    split at hrow
    · cases hrow
    · exact h.sender k v d row hv hin hd hrow
  · simp only [Threads.apply] at hrow
    split at hrow
    · cases hrow
    · exact h.based d row hrow

/-- Every event keeps the threads proper. -/
theorem apply (h : t.Proper lower) {e : ThreadEvent} (henabled : t.Enabled lower e) :
    (t.apply e).Proper lower := by
  cases e with
  | drawn n => exact ⟨h.placed, h.parent, h.homed, h.sender, h.based⟩
  | begun c row => exact h.begun henabled
  | stored id v => exact h.stored henabled
  | identified id mid =>
      have hmessages := h.onMessages
        (f := fun k v => if k = id then { v with internetMessageId := some mid } else v)
        (fun k v => by split <;> rfl) (fun k v => by split <;> rfl) (fun k v => by split <;> rfl)
        (fun k v p _ hp => by
          left
          split at hp <;> exact hp)
      have heq : t.apply (.identified id mid) =
        { t with messages := fun k => (t.messages k).map fun v =>
          if k = id then { v with internetMessageId := some mid } else v } := by
        refine Threads.ext rfl (funext fun k => ?_) rfl rfl
        by_cases hk : k = id <;> simp [Threads.apply, Threads.onMessage, hk]
      rw [heq]
      exact hmessages
  | adopted p children =>
      obtain ⟨w, c, mid, hw, hwc, -, hchildren⟩ := henabled
      refine h.onMessages (fun k v => by split <;> rfl) (fun k v => by split <;> rfl)
        (fun k v => by split <;> rfl) fun k v q hv hq => ?_
      split at hq
      next hk =>
        cases hq
        obtain ⟨v', hv', hwaits⟩ := hchildren k hk
        obtain rfl : v' = v := Option.some.inj (hv'.symm.trans hv)
        refine .inr ⟨w, hw, ?_, ?_⟩
        · rw [hwaits.conversationId]
          rfl
        · rw [hwc, hwaits.conversationId]
      next => exact .inl hq
  | merged target sources => exact h.merged henabled
  | promoted c base =>
      exact h.onConversation c (.inl fun _ => rfl) fun _ _ => ⟨fun _ _ => rfl, fun _ => rfl⟩
  | reopened c participant base =>
      exact h.onConversation c (.inr henabled.2) fun _ _ => ⟨fun _ _ => rfl, fun _ => rfl⟩
  | assigned c topic =>
      refine h.onConversation c (.inl fun _ => rfl) fun row hrow =>
        ⟨fun _ htopic => (by cases htopic), ?_⟩
      exact (h.based c row hrow).allowlist
  | turned c state =>
      exact h.onConversation c (.inl fun _ => rfl) fun row hrow =>
        ⟨(h.based c row hrow).version, (h.based c row hrow).allowlist⟩
  | overridden c state =>
      exact h.onConversation c (.inl fun _ => rfl) fun row hrow =>
        ⟨(h.based c row hrow).version, (h.based c row hrow).allowlist⟩
  | deleted c => exact h.deleted c

end Threads.Proper

/-! ### Runs -/

variable {rt : Runtime Digest} {s s' : System Digest} {a : Action Digest}

/-- Every step is explained by events. -/
theorem Threading.explained (h : Threading rt s a s') :
    (threading rt.toLowerCase).Explains (fun _ => True) s.db.threads s'.db.threads := by
  cases h with
  | plain events => exact events.woven.mono fun _ _ => trivial
  | projected pid c h email m action runs phase commits projection =>
      exact EventSystem.Explains.mono (woven_projectInboundEmail _ _ _ _ _ _ _ projection)
        fun _ _ => trivial
  | recorded pid c p id mid createdAt m action runs records retrieved recording =>
      obtain ⟨_, _, _, hrecorded⟩ := recordOutboundInternetMessageId_threads recording
      exact hrecorded.explained.mono fun _ _ => trivial
  | reopened pid c h conversation participant base action runs phase enabled requested events =>
      exact (Threads.explains (P := fun _ => True) trivial enabled).trans
        (events.mono fun _ _ => trivial)
  | assigned id topic title action events => exact events.woven.mono fun _ _ => trivial
  | overridden id state action events => exact events.woven.mono fun _ _ => trivial
  | deleted id action events => exact events.woven.mono fun _ _ => trivial

theorem Threading.proper (h : Threading rt s a s') (hs : s.db.threads.Proper rt.toLowerCase) :
    s'.db.threads.Proper rt.toLowerCase :=
  h.explained.invariant hs fun _ _ _ hI he => hI.apply he

theorem proper_initial (lower : JsString → JsString) (config : Config) (now : Time) :
    (System.initial config now : System Digest).db.threads.Proper lower := by
  constructor <;> simp [System.initial, Database.initial, Database.threads, Table.empty, Table.get?]

/-- An invariant of reachable states that every event of a step keeps. -/
theorem Reachable.invariant_threads [DecidableEq Digest] {I : Threads → Prop} (h : Reachable rt s)
    (h0 : ∀ config now, I (System.initial config now : System Digest).db.threads)
    (hstep : ∀ t e, t.Proper rt.toLowerCase → I t → t.Enabled rt.toLowerCase e → I (t.apply e)) :
    I s.db.threads := by
  obtain ⟨config, now, hrun⟩ := h
  have hinv : Threaded s ∧ s.db.threads.Proper rt.toLowerCase ∧ I s.db.threads := by
    refine hrun.invariant (I := fun s => Threaded s ∧ s.db.threads.Proper rt.toLowerCase ∧
      I s.db.threads)
      ⟨threaded_initial config now, proper_initial _ config now, h0 config now⟩ ?_
    intro s a s' hI _ hs
    obtain ⟨hthreading, hthreaded⟩ := hI.1.step hs
    have hboth := hthreading.explained.invariant (I := fun t => t.Proper rt.toLowerCase ∧ I t) hI.2
      fun t e _ hI he => ⟨hI.1.apply he, hstep t e hI.1 hI.2 he⟩
    exact ⟨hthreaded, hboth⟩
  exact hinv.2.2

theorem Reachable.proper [DecidableEq Digest] (h : Reachable rt s) :
    s.db.threads.Proper rt.toLowerCase :=
  h.invariant_threads (fun config now => proper_initial _ config now) fun _ _ hI _ he => hI.apply he

end ResendConversation
