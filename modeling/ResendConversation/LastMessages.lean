import ResendConversation.MailTransactions
import ResendConversation.MessageTimes
import ResendConversation.ThreadRuns

/-! # The date of a conversation

Every transaction leaves the conversations dated by their latest messages, but for one:
a reopening dates its conversation by its own reading of the clock, whatever the times of the
messages that failed. -/

namespace ResendConversation

open Foundation Tx

variable {Digest : Type} {D : Set Uuid} {db db' : Database Digest}

theorem Database.dated_of_absent {c : Uuid} (h : db.conversations.get? c = none) : db.Dated c := by
  intro row hrow
  rw [h] at hrow
  cases hrow

/-- Every conversation is dated afterwards, if those are that were touched. -/
theorem Timely.all_dated (h : Timely D db db') (hd : ∀ c, db.Dated c) (hD : ∀ c ∈ D, db'.Dated c)
    (c : Uuid) :
    db'.Dated c := by
  by_cases hc : c ∈ D
  · exact hD c hc
  · exact h.dated hc (hd c)

theorem timely_performing {α : Type} {x : Transaction Digest α} (hx : Performing .routine x) {r : α}
    (h : x db = .ok (r, db')) : Timely D db db' :=
  (hx h).timely {}

theorem refreshLastMessageAt_dated {id : Uuid} {u : Unit}
    (h : refreshLastMessageAt id db = .ok (u, db')) (hne : (db.messageTimes id).Nonempty) :
    Timely {id} db db' ∧ db'.Dated id := by
  obtain ⟨_, _, hget, h⟩ := bind_eq_ok.mp h
  obtain ⟨rfl, rfl⟩ := get_eq_ok.mp hget
  have hmem : ∀ t, t ∈ (db.messages.select fun m => m.conversationId == some id).map
      EmailMessage.emailCreatedAt ↔ t ∈ db.messageTimes id := by
    intro t
    rw [List.mem_map]
    constructor
    · rintro ⟨m, hm, rfl⟩
      obtain ⟨hm, hc⟩ := Table.mem_select.mp hm
      exact ⟨m, hm, beq_iff_eq.mp hc, rfl⟩
    · rintro ⟨m, hm, hc, rfl⟩
      exact ⟨m, Table.mem_select.mpr ⟨hm, beq_iff_eq.mpr hc⟩, rfl⟩
  cases hlatest : ((db.messages.select fun m => m.conversationId == some id).map
      EmailMessage.emailCreatedAt).max? with
  | none =>
    have hnone := hlatest
    obtain ⟨t, ht⟩ := hne
    rw [List.max?_eq_none_iff] at hnone
    have hnil := (hmem t).mpr ht
    rw [hnone] at hnil
    cases hnil
  | some latest =>
    rw [hlatest] at h
    simp only [bind_eq_ok, pure_eq_ok] at h
    obtain ⟨_, _, hupdate, -, rfl⟩ := h
    obtain ⟨-, rfl⟩ := updateConversation_eq_ok hupdate
    obtain ⟨hin, hmax⟩ := List.max?_eq_some_iff.mp hlatest
    refine ⟨.of_conversations rfl ⟨by exact fun _ => rfl, rfl⟩ ?_, fun row' hrow' => ?_⟩
    · intro c hc hnot
      exact absurd (beq_iff_eq.mp hc) hnot
    · rw [Table.get?_update] at hrow'
      obtain ⟨row, hrow, rfl⟩ := Option.map_eq_some_iff.mp hrow'
      rw [if_pos (beq_iff_eq.mpr (Table.key_of_get? hrow))]
      exact ⟨(hmem latest).mp hin, fun t ht => hmax t ((hmem t).mpr ht)⟩

/-! ### Merges -/

theorem moveMessages_timely {target : Uuid} {sources : List Uuid} (htarget : target ∉ sources)
    {u : Unit} (h : moveMessages target sources db = .ok (u, db')) :
    Timely (insert target {c | c ∈ sources}) db db' ∧
      db.messageTimes target ⊆ db'.messageTimes target := by
  simp only [moveMessages, bind_eq_ok, updateMessages_eq_ok, pure_eq_ok] at h
  obtain ⟨_, _, ⟨-, rfl⟩, -, hdb⟩ := h
  have hmem : ∀ m', m' ∈ db'.messages ↔ ∃ m ∈ db.messages,
      (if m.conversationId.any sources.contains then { m with conversationId := some target }
        else m) = m' := by
    intro m'
    rw [← hdb, Table.mem_update]
  have hkept : ∀ m ∈ db.messages, ∀ c ∉ sources, m.conversationId = some c → m ∈ db'.messages := by
    intro m hm c hc hmc
    exact (hmem m).mpr ⟨m, hm, if_neg (by simp [hmc, hc])⟩
  refine ⟨⟨fun c hc => ?_, fun c _ row' hrow' => ?_⟩, ?_⟩
  · have hc' : c ≠ target ∧ c ∉ sources := by simpa [not_or] using hc
    ext t
    constructor
    · rintro ⟨m', hm', hmc, ht⟩
      obtain ⟨m, hm, rfl⟩ := (hmem m').mp hm'
      split at hmc
      · exact absurd (Option.some.inj hmc).symm hc'.1
      next hnot =>
        rw [if_neg hnot] at ht
        exact ⟨m, hm, hmc, ht⟩
    · rintro ⟨m, hm, hmc, ht⟩
      exact ⟨m, hkept m hm c hc'.2 hmc, hmc, ht⟩
  · rw [← hdb] at hrow'
    exact ⟨row', hrow', rfl⟩
  · rintro t ⟨m, hm, hmc, ht⟩
    exact ⟨m, hkept m hm target htarget hmc, hmc, ht⟩

/-- A merge touches its target, and the sources are gone. -/
theorem absorbConversations_timely {config : Config} {now occurredAt : Time} {target : Uuid}
    {sources : List Uuid} {adopt : Transaction Digest Unit} (hadopt : Performing .routine adopt)
    (htarget : target ∉ sources) {u : Unit}
    (h : absorbConversations config now target sources occurredAt adopt db = .ok (u, db')) :
    Timely (insert target {c | c ∈ sources}) db db' ∧
      db.messageTimes target ⊆ db'.messageTimes target ∧
      ∀ c ∈ sources, db'.conversations.get? c = none := by
  simp only [absorbConversations, bind_eq_ok, modify_eq_ok] at h
  obtain ⟨_, db₁, h₁, _, db₂, h₂, _, db₃, h₃, rfl⟩ := h
  obtain ⟨hmoved, hgrown⟩ := moveMessages_timely htarget h₁
  have hrecorded : @Timely Digest ∅ db₁ db₂ :=
    timely_performing (performs_recordConversationMerges config target sources occurredAt) h₂
  have hadopted : @Timely Digest ∅ db₂ db₃ := timely_performing hadopt h₃
  have hdeleted : Timely {c | c ∈ sources} db₃ (deleteConversations now sources db₃) :=
    timely_deleteConversations now db₃ fun _ hc => hc
  have hquiet : Timely {c | c ∈ sources} db₁ (deleteConversations now sources db₃) :=
    ((hrecorded.trans hadopted).mono (Set.empty_subset _)).trans hdeleted
  refine ⟨hmoved.trans (hquiet.mono (Set.subset_insert _ _)), ?_, fun c hc => ?_⟩
  · rw [hquiet.times target htarget]
    exact hgrown
  · obtain ⟨n, tombstones, heq⟩ := deleteConversations_exact now sources db₃
    rw [heq.eq, Table.get?_delete, Option.filter_eq_none_iff]
    intro row hrow
    simpa [Table.key_of_get? hrow] using hc

/-- After a merge only the target may be dated wrongly. -/
theorem dated_of_merged {target : Uuid} {sources : List Uuid} (hd : ∀ c, c ≠ target → db.Dated c)
    (h : Timely (insert target {c | c ∈ sources}) db db')
    (hgone : ∀ c ∈ sources, db'.conversations.get? c = none) (c : Uuid) (hc : c ≠ target) :
    db'.Dated c := by
  by_cases hsource : c ∈ sources
  · exact db'.dated_of_absent (hgone c hsource)
  · exact h.dated (by simp [hc, hsource]) (hd c hc)

/-- The target is dated last. -/
theorem dated_of_refreshed {target : Uuid} {u : Unit} (hd : ∀ c, c ≠ target → db.Dated c)
    (hne : (db.messageTimes target).Nonempty) (h : refreshLastMessageAt target db = .ok (u, db'))
    (c : Uuid) :
    db'.Dated c := by
  obtain ⟨htimely, htarget⟩ := refreshLastMessageAt_dated h hne
  by_cases hc : c = target
  · exact hc ▸ htarget
  · exact htimely.dated hc (hd c hc)

theorem mergeUnassigned_dated {config : Config} {now occurredAt : Time} {target : EmailConversation}
    {related : List (ThreadedMessage Digest)} {u : Unit} (hd : ∀ c, c ≠ target.id → db.Dated c)
    (h : mergeUnassigned config now target related occurredAt db = .ok (u, db')) (c : Uuid)
    (hc : c ≠ target.id) :
    db'.Dated c := by
  unfold mergeUnassigned at h
  split at h
  · obtain ⟨-, rfl⟩ := pure_eq_ok.mp h
    exact hd c hc
  · obtain ⟨_, db₁, h₁, h₂⟩ := bind_eq_ok.mp h
    have hpreserved : @Timely Digest ∅ db db₁ :=
      timely_performing (performs_preserveMergedConversationState _ _) h₁
    obtain ⟨htimely, -, hgone⟩ := absorbConversations_timely (.pure _) target_notMem_unassigned h₂
    exact dated_of_merged (fun d hne => hpreserved.dated (Set.notMem_empty d) (hd d hne))
      htimely hgone c hc

/-! ### Message-IDs of outbound messages -/

theorem recordOutboundInternetMessageId_dated {rt : Runtime Digest} {config : Config}
    {scan : Scan (EmailMessage Digest)} {now emailCreatedAt : Time} {id : Uuid} {mid : JsString}
    {m : EmailMessage Digest} (hd : ∀ c, db.Dated c)
    (h : recordOutboundInternetMessageId rt config scan now id mid emailCreatedAt db = .ok (m, db'))
    (c : Uuid) :
    db'.Dated c := by
  simp only [recordOutboundInternetMessageId, bind_eq_ok, get_eq_ok, orThrow_eq_ok,
    ensure_eq_ok] at h
  obtain ⟨_, _, ⟨rfl, rfl⟩, outbound, _, ⟨hfound, rfl⟩, _, _, ⟨-, rfl⟩, target, _, ⟨htarget, rfl⟩,
      conversation, _,
    ⟨-, rfl⟩, updated, db₁, hupdate, _, _, ⟨rfl, rfl⟩, h⟩ := h
  -- the message is dated anew
  have hid : outbound.id = id := Table.key_of_get? hfound
  obtain ⟨m₀, hm₀, -, -, hdb₁⟩ := updateMessage_eq_ok.mp hupdate
  obtain rfl : outbound = m₀ := Option.some.inj (hfound.symm.trans (hid ▸ hm₀))
  have hmem : ∀ m', m' ∈ db₁.messages ↔ ∃ m ∈ db.messages, (if m.id == outbound.id then
      { m with internetMessageId := some mid, emailCreatedAt := emailCreatedAt } else m) = m' := by
    intro m'
    rw [hdb₁, Table.mem_update]
  have hdated : ∀ d, d ≠ target → db₁.Dated d := by
    intro d hne
    refine Timely.dated (D := {target}) ⟨fun d hd' => ?_, fun d _ row' hrow' => ?_⟩ hne (hd d)
    · ext t
      constructor
      · rintro ⟨m', hm', hmc, ht⟩
        obtain ⟨m, hm, rfl⟩ := (hmem m').mp hm'
        split at hmc
        next hsel =>
          obtain rfl : m = outbound :=
            Table.key_inj hm (Table.mem_of_get? hfound) (beq_iff_eq.mp hsel)
          exact absurd (Option.some.inj (hmc.symm.trans htarget)) hd'
        next hnot =>
          rw [if_neg hnot] at ht
          exact ⟨m, hm, hmc, ht⟩
      · rintro ⟨m, hm, hmc, ht⟩
        refine ⟨m, (hmem m).mpr ⟨m, hm, if_neg fun hsel => ?_⟩, hmc, ht⟩
        obtain rfl : m = outbound :=
          Table.key_inj hm (Table.mem_of_get? hfound) (beq_iff_eq.mp hsel)
        exact hd' (Option.some.inj (hmc.symm.trans htarget))
    · rw [hdb₁] at hrow'
      exact ⟨row', hrow', rfl⟩
  have hne : (db₁.messageTimes target).Nonempty :=
    ⟨emailCreatedAt, _,
      (hmem _).mpr ⟨outbound, Table.mem_of_get? hfound, if_pos (beq_self_eq_true _)⟩, htarget, rfl⟩
  split at h
  · simp only [bind_eq_ok, pure_eq_ok] at h
    obtain ⟨_, db₂, hadopt, _, db₃, hrefresh, -, rfl⟩ := h
    have hadopted : @Timely Digest ∅ db₁ db₂ := timely_performing (performs_adoptReplies _ _) hadopt
    refine dated_of_refreshed (fun d hne => hadopted.dated (Set.notMem_empty d) (hdated d hne))
      ?_ hrefresh c
    rw [hadopted.times target (Set.notMem_empty _)]
    exact hne
  · simp only [bind_eq_ok, pure_eq_ok] at h
    obtain ⟨_, db₂, hpreserve, _, db₃, habsorb, _, db₄, hrefresh, -, rfl⟩ := h
    have hpreserved : @Timely Digest ∅ db₁ db₂ :=
      timely_performing (performs_preserveMergedConversationState _ _) hpreserve
    obtain ⟨htimely, hgrown, hgone⟩ :=
      absorbConversations_timely (performs_adoptReplies _ _) target_notMem_unassigned habsorb
    refine dated_of_refreshed (dated_of_merged (fun d hne =>
      hpreserved.dated (Set.notMem_empty d) (hdated d hne)) htimely hgone)
        (.mono hgrown ?_) hrefresh c
    rw [hpreserved.times target (Set.notMem_empty _)]
    exact hne

/-! ### Projections -/

/-- A message is added to a conversation. -/
theorem createMessage_timely {row : Uuid → EmailMessage Digest} {c : Uuid} {t : Time}
    (hc : ∀ id, (row id).conversationId = some c) (ht : ∀ id, (row id).emailCreatedAt = t)
    {m : EmailMessage Digest} (h : createMessage row db = .ok (m, db')) :
    Timely {c} db db' ∧ db'.messageTimes c = insert t (db.messageTimes c) ∧
      db'.conversations = db.conversations := by
  obtain ⟨-, hcreated⟩ := createMessage_eq_ok h
  obtain ⟨table, htable, rfl⟩ := hcreated.table
  have hmem := fun m' => Table.mem_insert? (s := m') htable
  refine ⟨⟨fun d hd => ?_, fun _ _ row' hrow' => ⟨row', hrow', rfl⟩⟩, ?_, rfl⟩
  · ext t'
    constructor
    · rintro ⟨m', hm', hmc, ht'⟩
      rcases (hmem m').mp hm' with hold | rfl
      · exact ⟨m', hold, hmc, ht'⟩
      · exact absurd (Option.some.inj (hmc.symm.trans (hc _))) hd
    · rintro ⟨m', hm', hmc, ht'⟩
      exact ⟨m', (hmem m').mpr (.inl hm'), hmc, ht'⟩
  · ext t'
    constructor
    · rintro ⟨m', hm', hmc, rfl⟩
      rcases (hmem m').mp hm' with hold | rfl
      · exact .inr ⟨m', hold, hmc, rfl⟩
      · exact .inl (ht _)
    · rintro (rfl | ⟨m', hm', hmc, ht'⟩)
      · exact ⟨_, (hmem _).mpr (.inr rfl), hc _, ht _⟩
      · exact ⟨m', (hmem m').mpr (.inl hm'), hmc, ht'⟩

theorem finishTail_dated {config : Config} {inbound : InboundEmail}
    {conversation : EmailConversation} {created : Bool} {messageId : Uuid}
    {event : ConversationEventInput} {u : Unit} (hevent : event.type ≠ .deleted)
    (hd : ∀ c, c ≠ conversation.id → db.Dated c) (hne : (db.messageTimes conversation.id).Nonempty)
    (h : finishTail config inbound conversation created messageId event db = .ok (u, db'))
    (c : Uuid) :
    db'.Dated c := by
  obtain ⟨_, db₁, h₁, h⟩ := bind_eq_ok.mp h
  obtain ⟨_, db₂, h₂, h⟩ := bind_eq_ok.mp h
  obtain ⟨_, db₃, h₃, h₄⟩ := bind_eq_ok.mp h
  have hbefore : @Timely Digest ∅ db db₂ :=
    (timely_performing (performs_event _ hevent) h₁).trans
      (timely_performing (performs_adoptReplies _ _) h₂)
  have hafter : @Timely Digest ∅ db₃ db' := by
    refine timely_performing ?_ h₄
    exact .bind (performs_applyAutomaticState _ _ _) fun _ =>
      .ite (.bind (performs_event _ nofun) fun _ => .pure _) (.pure _)
  have hrefreshed :=
    dated_of_refreshed (fun d hd' => hbefore.dated (Set.notMem_empty d) (hd d hd')) (by
    rw [hbefore.times _ (Set.notMem_empty _)]
    exact hne) h₃
  exact hafter.dated (Set.notMem_empty c) (hrefreshed c)

theorem projectInto_dated {rt : Runtime Digest} {config : Config} {now : Time}
    {event : EmailEventData} {email : ResendEmail} {related : RelatedMessages Digest}
    {conversation : EmailConversation} {created : Bool} {m : EmailMessage Digest}
    (hd : ∀ c, c ≠ conversation.id → db.Dated c)
    (h : projectInto rt config now event email related conversation created db = .ok (m, db'))
    (c : Uuid) :
    db'.Dated c := by
  simp only [projectInto, bind_eq_ok, pure_eq_ok] at h
  obtain ⟨_, db₁, h₁, message, db₂, h₂, count, db₃, h₃, _, db₄, h₄, -, rfl⟩ := h
  obtain ⟨hcreated, htimes, -⟩ := @createMessage_timely _ _ _ _ conversation.id
    (parseInboundEmail rt event email).emailCreatedAt (fun _ => rfl) (fun _ => rfl) _ h₂
  have hattached : @Timely Digest ∅ db₂ db₃ :=
    timely_performing (performs_projectInboundAttachments _ _ _ _ _ _) h₃
  have hd₃ : ∀ d, d ≠ conversation.id → db₃.Dated d := fun d hne =>
    hattached.dated (Set.notMem_empty d) (hcreated.dated hne (mergeUnassigned_dated hd h₁ d hne))
  have hne₃ : (db₃.messageTimes conversation.id).Nonempty := by
    rw [hattached.times _ (Set.notMem_empty _), htimes]
    exact Set.insert_nonempty _ _
  unfold finishProjection at h₄
  split at h₄
  · obtain ⟨_, db₅, h₅, h₆⟩ := bind_eq_ok.mp h₄
    have hevent : @Timely Digest ∅ db₃ db₅ := by
      refine timely_performing ?_ h₅
      exact performs_event _ nofun
    refine finishTail_dated (by exact nofun)
      (fun d hne => hevent.dated (Set.notMem_empty d) (hd₃ d hne)) ?_ h₆ c
    rw [hevent.times _ (Set.notMem_empty _)]
    exact hne₃
  · exact finishTail_dated (by exact nofun) hd₃ hne₃ h₄ c

theorem projectInboundEmail_dated {rt : Runtime Digest} {config : Config}
    {scan : Scan (EmailMessage Digest)} {now : Time} {event : EmailEventData} {email : ResendEmail}
    {base : JsString} {m : EmailMessage Digest} (hd : ∀ c, db.Dated c)
    (h : projectInboundEmail rt config scan now event email base db = .ok (m, db')) (c : Uuid) :
    db'.Dated c := by
  obtain ⟨_, _, hget, h⟩ := bind_eq_ok.mp h
  obtain ⟨rfl, rfl⟩ := get_eq_ok.mp hget
  dsimp only at h
  cases hexisting : (scan.order (db.messages.select fun m =>
      m.kind == .conversation && carriesIdentity event (parseInboundEmail rt event email)
        m)).head? with
  | some existing =>
    rw [hexisting] at h
    obtain ⟨-, rfl⟩ := pure_eq_ok.mp h
    exact hd c
  | none =>
    rw [hexisting] at h
    dsimp only at h
    cases hchosen : chooseConversation rt db (parseInboundEmail rt event email)
        (findRelatedMessages rt db scan (parseInboundEmail rt event email)) base with
    | some conversation =>
      rw [hchosen] at h
      exact projectInto_dated (fun c _ => hd c) h c
    | none =>
      rw [hchosen] at h
      obtain ⟨conversation, db₁, h₁, h⟩ := bind_eq_ok.mp h
      simp only [newInboundConversation, bind_eq_ok, freshId_eq_ok, pure_eq_ok] at h₁
      obtain ⟨_, _, ⟨rfl, rfl⟩, _, _, ⟨rfl, rfl⟩, _, _, hc, rfl, rfl⟩ := h₁
      obtain ⟨table, ht, rfl⟩ := createConversation_eq_ok hc
      refine projectInto_dated (fun c hne => ?_) h c
      intro row hrow
      rw [Table.get?_of_insert? ht, if_neg (Ne.symm hne)] at hrow
      exact hd c row hrow

/-! ### Send transactions -/

section
variable {ctx : SendContext Digest} {id : Uuid}

/-- An outbound message is added to a conversation. -/
theorem createOutbound_timely {row : Uuid → EmailMessage Digest} {c : Uuid}
    (hc : ∀ id, (row id).conversationId = some c) (ht : ∀ id, (row id).emailCreatedAt = ctx.now)
    (h : createOutbound ctx row db = .ok (id, db')) :
    Timely {c} db db' ∧ db'.messageTimes c = insert ctx.now (db.messageTimes c) ∧
      ∀ row', db'.conversations.get? c = some row' →
        ∃ row, db.conversations.get? c = some row ∧ row'.lastMessageAt = row.lastMessageAt := by
  obtain ⟨m, db₁, h₁, h⟩ := bind_eq_ok.mp h
  obtain ⟨_, db₂, h₂, h⟩ := bind_eq_ok.mp h
  obtain ⟨rfl, rfl⟩ := pure_eq_ok.mp h
  obtain ⟨hcreated, htimes, hrows⟩ := createMessage_timely hc ht h₁
  have hentry : @Timely Digest ∅ db₁ db₂ := timely_performing (performs_createOutboxEntry _ _) h₂
  refine ⟨hcreated.trans (hentry.mono (Set.empty_subset _)), ?_, fun row' hrow' => ?_⟩
  · rw [hentry.times c (Set.notMem_empty c), htimes]
  · rw [← hrows]
    exact hentry.dates c (Set.notMem_empty c) row' hrow'

theorem claimAttachmentsForMessage_timely {config : Config}
    {refs : Option (List EmailAttachmentRefInput)} {n : ℕ} (hdrawn : id < db.nextId)
    (h : claimAttachmentsForMessage config id refs db = .ok (n, db')) :
    @Timely Digest ∅ db db' :=
  (performs_claimAttachmentsForMessage (G := { bind := fun _ => True }) config trivial hdrawn
    h).timely {}

theorem createOutbound_drawn {row : Uuid → EmailMessage Digest} (hid : ∀ id, (row id).id = id)
    (h : createOutbound ctx row db = .ok (id, db')) : id < db'.nextId :=
  (performs_createOutbound (G := { message := fun _ _ => True }) hid (fun _ => trivial) h).2.2

theorem openConversation_dated {value : CreateConversationV2Input} (hs : db.Sound)
    (hd : ∀ c, db.Dated c) (h : openConversation ctx value db = .ok (id, db')) (c : Uuid) :
    db'.Dated c := by
  simp only [openConversation, bind_eq_ok, lockAllowedEmailIdentities, get_eq_ok, pure_eq_ok,
    ensure_eq_ok, freshId_eq_ok, orThrow_eq_ok] at h
  obtain ⟨_, _, ⟨_, _, ⟨rfl, rfl⟩, rfl, rfl⟩, _, _, ⟨-, rfl⟩, _, _, ⟨rfl, rfl⟩, _, _,
      ⟨rfl, rfl⟩, replyTo, _,
    ⟨-, rfl⟩, _, db₁, hconversation, id, db₂, hcreate, _, db₃, hclaim, _, db₄, hcreated, _,
      db₅, hintended,
    rfl, rfl⟩ := h
  obtain ⟨table, htable, rfl⟩ := createConversation_eq_ok hconversation
  obtain ⟨hstored, htimes, hdates⟩ :=
    createOutbound_timely (c := db.nextId) (fun _ => rfl) (fun _ => rfl) hcreate
  have hrest : @Timely Digest ∅ db₂ db₅ := by
    have hclaimed :=
      claimAttachmentsForMessage_timely (createOutbound_drawn (fun _ => rfl) hcreate) hclaim
    refine hclaimed.trans (.trans (timely_performing ?_ hcreated) (timely_performing ?_ hintended))
    · exact performs_event _ (by simp)
    · exact performs_event _ (by simp [outboundIntended])
  -- the identifier of the new conversation is not in use
  have hempty : db.messageTimes db.nextId = ∅ := by
    refine Set.eq_empty_of_forall_notMem fun t ht => ?_
    obtain ⟨m, hm, hc, -⟩ := ht
    obtain ⟨row, hrow⟩ := Option.isSome_iff_exists.mp (hs.placed m hm _ hc)
    exact (hs.conversationId_lt row (Table.mem_of_get? hrow)).ne (Table.key_of_get? hrow)
  refine hrest.dated (Set.notMem_empty c) ?_
  by_cases hc : c = db.nextId
  · subst hc
    intro row' hrow'
    obtain ⟨row, hrow, hdate⟩ := hdates row' hrow'
    rw [Table.get?_of_insert? htable, if_pos rfl] at hrow
    cases hrow
    have hnow : db₂.messageTimes db.nextId = {ctx.now} :=
      (htimes.trans (congrArg (insert ctx.now) hempty)).trans (insert_empty_eq _)
    rw [hnow, hdate]
    exact isGreatest_singleton
  · refine hstored.dated hc fun row hrow => hd c row ?_
    rwa [Table.get?_of_insert? htable, if_neg (Ne.symm hc)] at hrow

/-- A reopening dates its conversation by its own time, which must not be before the times of
its messages. -/
theorem reopenConversation_dated {value : CreateConversationV2Input}
    {conversation : EmailConversation} {r : Option Uuid} (hd : ∀ c, db.Dated c)
    (hlate : ∀ t ∈ db.messageTimes conversation.id, t ≤ ctx.now)
    (h : reopenConversation ctx value conversation db = .ok (r, db')) (c : Uuid) : db'.Dated c := by
  simp only [reopenConversation, bind_eq_ok, lockAllowedEmailIdentities, get_eq_ok, pure_eq_ok,
    ensure_eq_ok, findConversationOrThrow, orThrow_eq_ok] at h
  obtain ⟨current, _, ⟨_, _, ⟨rfl, rfl⟩, -, rfl⟩, _, _, ⟨_, _, ⟨rfl, rfl⟩, rfl, rfl⟩, _, _,
      ⟨-, rfl⟩, _, _,
    ⟨-, rfl⟩, _, _, ⟨rfl, rfl⟩, h⟩ := h
  split at h
  · obtain ⟨-, rfl⟩ := pure_eq_ok.mp h
    exact hd c
  simp only [bind_eq_ok, orThrow_eq_ok, pure_eq_ok] at h
  obtain ⟨_, db₁, hupdate, replyTo, _, ⟨-, rfl⟩, id, db₂, hcreate, _, db₃, hclaim, _, db₄, hevents,
    -, rfl⟩ := h
  obtain ⟨-, rfl⟩ := updateConversation_eq_ok hupdate
  obtain ⟨hstored, htimes, hdates⟩ :=
    createOutbound_timely (c := conversation.id) (fun _ => rfl) (fun _ => rfl) hcreate
  have hrest : @Timely Digest ∅ db₂ db₄ :=
    (claimAttachmentsForMessage_timely (createOutbound_drawn (fun _ => rfl) hcreate) hclaim).trans
      (timely_performing (performs_appendIntentEvents _ _ _ _ _) hevents)
  refine hrest.dated (Set.notMem_empty c) ?_
  by_cases hc : c = conversation.id
  · subst hc
    intro row' hrow'
    obtain ⟨row₁, hrow₁, hdate⟩ := hdates row' hrow'
    rw [Table.get?_update] at hrow₁
    obtain ⟨row, hrow, rfl⟩ := Option.map_eq_some_iff.mp hrow₁
    rw [if_pos (beq_iff_eq.mpr (Table.key_of_get? hrow))] at hdate
    rw [htimes, hdate]
    exact ⟨Set.mem_insert _ _, fun t ht => ht.elim le_of_eq (hlate t)⟩
  · refine hstored.dated hc fun row hrow => ?_
    rw [Table.get?_update] at hrow
    obtain ⟨row₀, hrow₀, rfl⟩ := Option.map_eq_some_iff.mp hrow
    have hne : ¬(row₀.id == conversation.id) = true := by
      rw [Table.key_of_get? hrow₀, beq_iff_eq]
      exact hc
    rw [if_neg hne]
    exact hd c row₀ hrow₀

theorem createReply_dated {conversationId : Uuid} {value : MessageV2Input} {p : ReplyParent}
    (hd : ∀ c, db.Dated c) (h : createReply ctx conversationId value p db = .ok (id, db'))
    (c : Uuid) :
    db'.Dated c := by
  simp only [createReply, bind_eq_ok, lockAllowedEmailIdentities, get_eq_ok, pure_eq_ok,
    ensure_eq_ok, findConversationOrThrow, orThrow_eq_ok] at h
  obtain ⟨current, _, ⟨_, _, ⟨rfl, rfl⟩, hcurrent, rfl⟩, _, _, ⟨_, _, ⟨rfl, rfl⟩, rfl, rfl⟩, _, _,
      ⟨-, rfl⟩, _, _,
    ⟨-, rfl⟩, replyTo, _, ⟨-, rfl⟩, id, db₁, hcreate, _, db₂, hclaim, _, db₃, hupdate, _, db₄,
      hstate, _, db₅,
    hevents, rfl, rfl⟩ := h
  obtain ⟨hstored, htimes, hdates⟩ :=
    createOutbound_timely (fun _ => congrArg some (Table.key_of_get? hcurrent))
      (fun _ => rfl) hcreate
  have hclaimed :=
    claimAttachmentsForMessage_timely (createOutbound_drawn (fun _ => rfl) hcreate) hclaim
  obtain ⟨-, rfl⟩ := updateConversation_eq_ok hupdate
  have hrest : @Timely Digest ∅ _ db₅ :=
    (timely_performing (performs_applyAutomaticState _ _ _) hstate).trans
      (timely_performing (performs_appendIntentEvents _ _ _ _ _) hevents)
  refine hrest.dated (Set.notMem_empty c) fun row' hrow' => ?_
  rw [Table.get?_update] at hrow'
  obtain ⟨row₂, hrow₂, rfl⟩ := Option.map_eq_some_iff.mp hrow'
  by_cases hc : c = conversationId
  · subst hc
    obtain ⟨row₁, hrow₁, hdate₁⟩ := hclaimed.dates c (Set.notMem_empty c) row₂ hrow₂
    obtain ⟨row, hrow, hdate⟩ := hdates row₁ hrow₁
    rw [if_pos (beq_iff_eq.mpr (Table.key_of_get? hrow₂))]
    have htimes' : Database.messageTimes _ c = _ :=
      (hclaimed.times c (Set.notMem_empty c)).trans htimes
    refine htimes' ▸ ?_
    rw [hdate₁, hdate, max_comm]
    exact (hd c row hrow).insert ctx.now
  · have hne : ¬(row₂.id == conversationId) = true := by
      rw [Table.key_of_get? hrow₂, beq_iff_eq]
      exact hc
    rw [if_neg hne]
    exact hclaimed.dated (Set.notMem_empty c) (hstored.dated hc (hd c)) row₂ hrow₂

theorem createDirect_dated {value : DirectEmailV2Input} (hd : ∀ c, db.Dated c)
    (h : createDirect ctx value db = .ok (id, db')) (c : Uuid) : db'.Dated c := by
  simp only [createDirect, bind_eq_ok, lockAllowedEmailIdentity, get_eq_ok, pure_eq_ok,
    ensure_eq_ok] at h
  obtain ⟨_, _, ⟨_, _, ⟨rfl, rfl⟩, rfl, rfl⟩, _, _, ⟨-, rfl⟩, id, db₁, hcreate, _, db₂, hclaim,
    rfl, rfl⟩ := h
  have hstored := (performs_createOutbound (G := { message := fun _ m => m.conversationId = none })
    (fun _ => rfl) (fun _ => rfl) hcreate).1.timely (D := ∅)
      { message := fun _ m c hm hc => by cases hm.symm.trans hc }
  have hclaimed :=
    claimAttachmentsForMessage_timely (createOutbound_drawn (fun _ => rfl) hcreate) hclaim
  exact hclaimed.dated (Set.notMem_empty c) (hstored.dated (Set.notMem_empty c) (hd c))

theorem storeMessage_dated {parent : Option ReplyParent} (hs : db.Sound) (hd : ∀ c, db.Dated c)
    (h : SendHandler.storeMessage ctx parent db = .ok (id, db')) (c : Uuid) : db'.Dated c := by
  unfold SendHandler.storeMessage at h
  cases hrequest : ctx.request with
  | opening queued value =>
      rw [hrequest] at h
      exact openConversation_dated hs hd h c
  | reply queued conversationId value =>
      rw [hrequest] at h
      cases parent with
      | none => exact (throw_eq_ok.mp h).elim
      | some p => exact createReply_dated hd h c
  | direct queued value =>
      rw [hrequest] at h
      exact createDirect_dated hd h c

end

/-! ### Runs -/

section
variable [DecidableEq Digest] {rt : Runtime Digest} {s s' : System Digest} {a : Action Digest}

omit [DecidableEq Digest] in
theorem Proc.grant_timeless {p : Proc Digest} {choice : Choice Digest}
    (hg : ¬(p.grant rt s choice).rethread) : (p.grant rt s choice).Timeless D := by
  cases p with
  | send h =>
      have hroutine : (Proc.grant rt s choice (.send h)).rethread ∨
          Proc.grant rt s choice (.send h) = .routine := by
        simp only [Proc.grant]
        split
        all_goals first | exact .inl trivial | exact .inr rfl
      rw [hroutine.resolve_left hg]
      exact {}
  | receive h =>
      have hroutine : (Proc.grant rt s choice (.receive h)).rethread ∨
          Proc.grant rt s choice (.receive h) = .routine := by
        simp only [Proc.grant]
        split
        all_goals first | exact .inl trivial | exact .inr rfl
      rw [hroutine.resolve_left hg]
      exact {}
  | reaper phase => cases phase <;> exact {}
  | _ => exact {}

omit [DecidableEq Digest] in
/-- A step that threads no messages touches the times of a conversation that it deletes. -/
theorem System.grant_timeless (hg : ¬(s.grant rt a).rethread) :
    (s.grant rt a).Timeless {c | a = .operator (.deleteConversation c)} := by
  cases a with
  | run pid choice =>
      simp only [System.grant] at hg ⊢
      cases hp : s.procs.get? pid with
      | none => exact {}
      | some p =>
          rw [hp] at hg
          exact Proc.grant_timeless hg
  | start pid job choice => cases job <;> exact {}
  | operator request => exact { delete := fun _ c hc => congrArg Action.operator hc }
  | _ => exact {}

/-- The conversation that a step reopens with a new message, and the time that the request
read. -/
def System.reopens (rt : Runtime Digest) (s : System Digest) : Action Digest → Option (Uuid × Time)
  | .run pid c =>
      match s.procs.get? pid with
      | some (_, .send h) =>
          match h.phase, h.request with
          | .reopenTransact conversation, .opening _ value =>
              match reopenConversation (h.context rt s c) value conversation s.db with
              | .ok (some _, _) => some (conversation.id, (h.context rt s c).now)
              | _ => none
          | _, _ => none
      | _ => none
  | _ => none

/-- A reopened conversation has no message after the time that the request read. -/
def ReopensLate (rt : Runtime Digest) (s : System Digest) (a : Action Digest) : Prop :=
  ∀ r ∈ s.reopens rt a, ∀ m ∈ s.db.messages.rows, m.conversationId = some r.1 →
    m.emailCreatedAt ≤ r.2

instance : Decidable (ReopensLate rt s a) :=
  inferInstanceAs (Decidable (∀ r ∈ s.reopens rt a, _))

theorem step_dated (hs : s.db.Sound) (hd : ∀ c, s.db.Dated c) (ha : ReopensLate rt s a)
    (hstep : step rt s a = some s') (c : Uuid) : s'.db.Dated c := by
  by_cases hg : (s.grant rt a).rethread
  · obtain ⟨pid, choice, p, rfl, hruns, hmail⟩ := step_mails hstep hg
    cases hmail with
    | nothing same => exact same ▸ hd c
    | stored h parent id proc phase stores => exact storeMessage_dated hs hd stores c
    | reopened h conversation queued value id proc phase request reopens =>
        subst proc
        refine reopenConversation_dated hd (fun t ⟨m, hm, hc, ht⟩ => ?_) reopens c
        refine ht ▸ ha (conversation.id, (h.context rt s choice).now) ?_ m hm hc
        simp only [System.reopens, show s.procs.get? pid = some (pid, .send h) from hruns, phase,
          request, reopens]
        rfl
    | recorded id mid createdAt m retrieved records =>
        exact recordOutboundInternetMessageId_dated hd records c
    | named id mid createdAt m retrieved names =>
        obtain ⟨-, -, -, -, hdb⟩ := updateMessage_eq_ok.mp names
        have hnamed : @Timely Digest ∅ s.db s'.db := by
          rw [hdb]
          exact .of_messages ⟨by exact fun _ => rfl, rfl⟩ fun _ => ⟨rfl, rfl⟩
        exact hnamed.dated (Set.notMem_empty c) (hd c)
    | projected h email m proc phase projects => exact projectInboundEmail_dated hd projects c
  · refine ((step_performs hstep).timely (System.grant_timeless hg)).all_dated hd ?_ c
    rintro d (rfl : a = _)
    rcases s.transact_db_cases (deleteConversation s.config s.now d) with hsame | ⟨found, hx⟩
    · rw [← show (s.transact (deleteConversation s.config s.now d)).2 = s' from Option.some.inj
        hstep, hsame]
      exact hd d
    · rw [show (s.transact (deleteConversation s.config s.now d)).2 = s' from Option.some.inj
        hstep] at hx
      rcases deleteConversation_eq_ok hx with hsame | hdeleted
      · exact hsame ▸ hd d
      · exact s'.db.dated_of_absent hdeleted.deleted

/-- In every run whose reopenings are late, every conversation has messages and is dated by the
latest of them. -/
theorem Run.last_message_at {config : Config} {now : Time}
    (h : Run (step rt) (ReopensLate rt) (.initial config now) s) :
    ∀ c ∈ s.db.conversations, IsGreatest (s.db.messageTimes c.id) c.lastMessageAt := by
  have hdated : Reachable rt s ∧ ∀ c, s.db.Dated c :=
    h.invariant (I := fun t => Reachable rt t ∧ ∀ c, t.db.Dated c)
      ⟨⟨config, now, .refl _⟩, fun c => Database.dated_of_absent rfl⟩ fun t b t' ht hb hstep => by
        obtain ⟨⟨config, now, hrun⟩, hd⟩ := ht
        have hreach : Reachable rt t := ⟨config, now, hrun⟩
        exact ⟨⟨config, now, hrun.tail trivial hstep⟩, step_dated hreach.threaded.sound hd hb hstep⟩
  exact fun c hc => hdated.2 c.id c (Table.mem_iff_get?.mp hc)

end

/-- A request for a topic starts at 50 ms; another opens the topic at 100 ms, and the provider
rejects its message; then the first one reopens the conversation under the time that it read. -/
def Reference.reopenAt (readAt : Time) : List (Action SendRequest) :=
  grants ++ [.tick 50, .start 1 (.send (opening false (js "e")) (js "l")) {}, .tick 50] ++
    submit 0 (opening false (js "e")) (js "k") ++
    [.run 0 {}, .run 0 {}, .reach 3 none (.threw (.api ⟨400, none⟩)), .run 0 {}] ++
    List.replicate 5 (.run 1 {}) ++ [.run 1 { readAt := some readAt }]

/-- A reopening under the time of the failed message. -/
theorem last_message_at_reference : ∃ s : System SendRequest,
    Run (step .reference) (ReopensLate .reference) (.initial .reference 0) s ∧
    s.db.messages.rows.length = 2 ∧ ∀ c ∈ s.db.conversations,
      IsGreatest (s.db.messageTimes c.id) c.lastMessageAt := by
  obtain ⟨s, hrun, hlength⟩ : ∃ s, Run (step .reference) (ReopensLate .reference) .reference s ∧
      s.db.messages.rows.length = 2 :=
        Run.exists_of_exec (Reference.reopenAt 100) (by decide +kernel)
  exact ⟨s, hrun, hlength, Run.last_message_at hrun⟩

/-- A reopening under the time that the request read before the failed message was stored. -/
theorem dated_before_message : ∃ s : System SendRequest, Reachable .reference s ∧
    ∃ c ∈ s.db.conversations, (s.db.messageTimes c.id).Nonempty ∧
      ¬IsGreatest (s.db.messageTimes c.id) c.lastMessageAt := by
  obtain ⟨s, hrun, c, hc, m, hm, hplace, hlate⟩ : ∃ s, Run (step .reference) Always .reference s ∧
      ∃ c ∈ s.db.conversations.rows, ∃ m ∈ s.db.messages.rows, m.conversationId = some c.id ∧
        c.lastMessageAt < m.emailCreatedAt :=
    Run.exists_of_exec (Reference.reopenAt 50) (by decide +kernel)
  have hin : m.emailCreatedAt ∈ s.db.messageTimes c.id := ⟨m, hm, hplace, rfl⟩
  exact ⟨s, .of_run hrun, c, hc, ⟨_, hin⟩, fun hgreatest => (hgreatest.2 hin).not_gt hlate⟩

end ResendConversation
