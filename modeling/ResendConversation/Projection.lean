import ResendConversation.Background
import ResendConversation.UniqueLists

/-! # Projection and merges

The transactions that thread mail: the projection of a received email, the recording of an
outbound Message-ID, and the merges of unassigned conversations that either may cause.  A
merge empties its source conversations before it deletes them, and its sources have no
topic, so these transactions are `Quiet` too. -/

namespace ResendConversation

open Foundation Tx

variable {Digest : Type}

/-! ### The sources of a merge -/

/-- The rows of a query with their conversations, as they are stored. -/
theorem conversation_of_mem_eligibleFor {rt : Runtime Digest} {db : Database Digest}
    {scan : Scan (EmailMessage Digest)} {participant : JsString} {p : EmailMessage Digest → Bool}
    {t : ThreadedMessage Digest} (h : t ∈ eligibleFor rt db scan participant p) :
    db.conversations.get? t.conversation.id = some t.conversation := by
  simp only [eligibleFor, withConversations, List.mem_filter, List.mem_filterMap] at h
  obtain ⟨⟨m, -, hm⟩, -⟩ := h
  split at hm
  · obtain ⟨c, hc, rfl⟩ := Option.map_eq_some_iff.mp hm
    have hid := Table.key_of_get? hc
    simpa only [hid] using hc
  · cases hm

theorem vacant_unassigned {db : Database Digest} {target : Uuid}
    {related : List (ThreadedMessage Digest)}
    (h : ∀ t ∈ related, db.conversations.get? t.conversation.id = some t.conversation) :
    Vacant (unassignedConversations target related) db := by
  intro c hc
  simp only [unassignedConversations, mem_unique, List.mem_map, List.mem_filter,
    Bool.and_eq_true] at hc
  obtain ⟨t, ⟨ht, -, hnone⟩, rfl⟩ := hc
  rintro ⟨row, hrow, hsome⟩
  rw [h t ht] at hrow
  cases hrow
  rw [Option.isNone_iff_eq_none.mp hnone] at hsome
  cases hsome

theorem target_notMem_unassigned {target : Uuid} {related : List (ThreadedMessage Digest)} :
    target ∉ unassignedConversations target related := by
  simp only [unassignedConversations, mem_unique, List.mem_map, List.mem_filter, Bool.and_eq_true,
    bne_iff_ne, not_exists, not_and]
  rintro t ⟨-, hne, -⟩ heq
  exact hne heq

theorem keepsVacant_insertRow {α κ : Type} [DecidableEq κ] {key : α → κ}
    {t : Database Digest → Table key} {put : Database Digest → Table key → Database Digest}
    {row : α} (h : ∀ db table, (t db).insert? row = some table → KeepsVacant db (put db table)) :
    Preserves KeepsVacant (insertRow t put row) := by
  intro db u db' hx
  obtain ⟨table, ht, rfl⟩ := insertRow_eq_ok.mp hx
  exact h db table ht

theorem keepsVacant_freshId : Preserves KeepsVacant (freshId : Transaction Digest Uuid) := by
  intro db id db' h
  obtain ⟨-, rfl⟩ := freshId_eq_ok.mp h
  exact .of_eq rfl rfl

theorem keepsVacant_createRoutingAlias (id : Uuid) (source : EmailConversation) :
    Preserves KeepsVacant (createRoutingAlias id source : Transaction Digest _) := by
  refine .bind .get fun db => ?_
  split
  · exact .pure _
  · exact .ite (.pure _) (.bind keepsVacant_freshId fun _ =>
      keepsVacant_insertRow fun _ _ _ => .of_eq rfl rfl)

theorem keepsVacant_preserveMergedConversationState (target : EmailConversation)
    (sources : List EmailConversation) :
    Preserves KeepsVacant
    (preserveMergedConversationState target sources : Transaction Digest _) := by
  unfold preserveMergedConversationState
  split
  · exact .pure _
  · exact .bind (.modify fun _ => .of_eq rfl rfl) fun _ =>
      .bind (.forM fun _ _ => keepsVacant_createRoutingAlias _ _) fun _ =>
        .bind (keepsVacant_updateConversation fun _ => rfl) fun _ => .pure _

theorem keepsVacant_updateMessage {id : Uuid} {f : EmailMessage Digest → EmailMessage Digest}
    {keep : ∀ m, (f m).id = m.id} (hthread : ∀ m, (f m).conversationId = m.conversationId) :
    Preserves KeepsVacant (updateMessage id f keep) := by
  intro db r db' h
  obtain ⟨-, -, -, -, rfl⟩ := updateMessage_eq_ok.mp h
  refine ⟨fun _ h => h, fun m' hm' => ?_⟩
  rw [Table.mem_update] at hm'
  obtain ⟨m, hm, rfl⟩ := hm'
  refine ⟨m, hm, ?_⟩
  split
  · exact ⟨(keep m).symm, hthread m⟩
  · exact ⟨rfl, rfl⟩

theorem keepsVacant_newInboundConversation (email : ResendEmail) (inbound : InboundEmail)
    (now : Time) :
    Preserves KeepsVacant (newInboundConversation email inbound now : Transaction Digest _) := by
  refine .bind keepsVacant_freshId fun _ => .bind keepsVacant_freshId fun _ =>
    .bind ?_ fun _ => .pure _
  intro db u db' h
  obtain ⟨table, ht, rfl⟩ := createConversation_eq_ok h
  refine ⟨?_, fun m hm => ⟨m, hm, rfl, rfl⟩⟩
  rintro c ⟨row, hrow, hsome⟩
  rw [Table.get?_of_insert? ht] at hrow
  split at hrow
  · cases hrow
    cases hsome
  · exact ⟨row, hrow, hsome⟩

/-! ### The frame of a merge -/

theorem mergeUnassigned_passive {config : Config} {now occurredAt : Time}
    {conversation : EmailConversation} {related : List (ThreadedMessage Digest)}
    {db db' : Database Digest} {u : Unit}
    (hv : Vacant (unassignedConversations conversation.id related) db)
    (h : mergeUnassigned config now conversation related occurredAt db = .ok (u, db')) :
    Passive db db' := by
  unfold mergeUnassigned at h
  split at h
  · obtain ⟨-, rfl⟩ := pure_eq_ok.mp h
    exact Std.Refl.refl db
  · obtain ⟨_, db₁, h₁, h₂⟩ := bind_eq_ok.mp h
    have hk := keepsVacant_preserveMergedConversationState _ _ h₁
    exact (quiet_preserveMergedConversationState _ _ h₁).trans
      (absorbConversations_passive (.pure _) (.pure _) target_notMem_unassigned (hk.vacant hv) h₂)

theorem quiet_recordOutboundInternetMessageId (rt : Runtime Digest) (config : Config)
    (scan : Scan (EmailMessage Digest)) (now : Time) (messageId : Uuid)
    (internetMessageId : JsString) (emailCreatedAt : Time) :
    Quiet (recordOutboundInternetMessageId rt config scan now messageId internetMessageId
      emailCreatedAt) := by
  have hrecord : ∀ id, Preserves KeepsVacant (updateMessage id fun m =>
      { m with internetMessageId := some internetMessageId, emailCreatedAt := emailCreatedAt } :
        Transaction Digest _) :=
    fun id => keepsVacant_updateMessage fun _ => rfl
  refine .bind .get fun db => .bind (.orThrow _ _) fun outbound => .bind (.ensure _ _) fun _ =>
    .bind (.orThrow _ _) fun conversationId => .bind (.orThrow _ _) fun conversation =>
      .bind (quiet_updateMessage (fun _ => rfl) fun _ => rfl) fun updated => ?_
  intro db₁ m db₄ h
  obtain ⟨_, _, hget, h⟩ := bind_eq_ok.mp h
  obtain ⟨rfl, rfl⟩ := get_eq_ok.mp hget
  dsimp only at h
  set related := eligibleFor rt db₁ scan (rt.toLowerCase conversation.participantAddress)
    fun m => m.parentMessageId.isNone && m.inReplyToInternetMessageId == some
      internetMessageId with hrel
  have hv : Vacant (unassignedConversations conversationId related) db₁ :=
    vacant_unassigned fun t ht => conversation_of_mem_eligibleFor ht
  split at h
  · exact (quiet_adoptReplies _ _).bind
      (fun _ => (quiet_refreshLastMessageAt _).bind fun _ => .pure _) h
  · obtain ⟨_, db₂, h₂, h⟩ := bind_eq_ok.mp h
    obtain ⟨_, db₃, h₃, h⟩ := bind_eq_ok.mp h
    have hk := keepsVacant_preserveMergedConversationState _ _ h₂
    have hp := absorbConversations_passive (quiet_adoptReplies _ _) (keepsVacant_adoptReplies _ _)
      target_notMem_unassigned (hk.vacant hv) h₃
    exact (quiet_preserveMergedConversationState _ _ h₂).trans
      (hp.trans (((quiet_refreshLastMessageAt _).bind fun _ => .pure _) h))

/-! ### The frame of a projection -/

theorem quiet_newInboundConversation (email : ResendEmail) (inbound : InboundEmail) (now : Time) :
    Quiet (newInboundConversation email inbound now : Transaction Digest _) := by
  intro db c db' h
  simp only [newInboundConversation, bind_eq_ok, freshId_eq_ok, pure_eq_ok] at h
  obtain ⟨_, _, ⟨rfl, rfl⟩, _, _, ⟨rfl, rfl⟩, _, _, hc, rfl, rfl⟩ := h
  obtain ⟨table, ht, rfl⟩ := createConversation_eq_ok hc
  exact .of_messages_eq (Nat.le_add_right _ 2) rfl
    (.insert ht le_rfl (Nat.lt_add_of_pos_right Nat.two_pos)) rfl rfl rfl rfl rfl

theorem quiet_finishProjection (config : Config) (inbound : InboundEmail)
    (conversation : EmailConversation) (createdConversation : Bool) (messageId : Uuid)
    (attachmentCount : ℕ) :
    Quiet (finishProjection config inbound conversation createdConversation messageId
      attachmentCount : Transaction Digest _) := by
  refine .ite (.bind (quiet_appendConversationEvent _ _) fun _ => ?_) ?_
  all_goals
    exact .bind (quiet_appendConversationEvent _ _) fun _ => .bind (quiet_adoptReplies _ _) fun _ =>
      .bind (quiet_refreshLastMessageAt _) fun _ => .bind (quiet_applyAutomaticState _ _ _) fun _ =>
        .ite (.bind (quiet_appendConversationEvent _ _) fun _ => .pure _) (.pure _)

theorem conversation_of_mem_relatedMessages {rt : Runtime Digest} {db : Database Digest}
    {scan : Scan (EmailMessage Digest)} {inbound : InboundEmail} {t : ThreadedMessage Digest}
    (h : t ∈ (findRelatedMessages rt db scan inbound).eligible ++
      (findRelatedMessages rt db scan inbound).waitingChildren) :
    db.conversations.get? t.conversation.id = some t.conversation := by
  rcases List.mem_append.mp h with h | h
  · exact conversation_of_mem_eligibleFor h
  · exact conversation_of_mem_eligibleFor h

/-- The writes after the merge. -/
theorem projectInto_passive {rt : Runtime Digest} {config : Config} {now : Time}
    {event : EmailEventData} {email : ResendEmail} {related : RelatedMessages Digest}
    {conversation : EmailConversation} {created : Bool} {db db' : Database Digest}
    {m : EmailMessage Digest}
    (hv : Vacant (unassignedConversations conversation.id
      (related.eligible ++ related.waitingChildren)) db)
    (h : projectInto rt config now event email related conversation created db = .ok (m, db')) :
    Passive db db' := by
  obtain ⟨_, db₁, h₁, h⟩ := bind_eq_ok.mp h
  refine (mergeUnassigned_passive hv h₁).trans ?_
  exact (quiet_createMessage (fun _ => rfl) fun _ => ⟨rfl, rfl, rfl, rfl⟩).bind
    (fun _ => (quiet_projectInboundAttachments _ _ _ _ _ _).bind fun _ =>
      (quiet_finishProjection _ _ _ _ _ _).bind fun _ => .pure _) h

theorem quiet_projectInboundEmail (rt : Runtime Digest) (config : Config)
    (scan : Scan (EmailMessage Digest)) (now : Time) (event : EmailEventData) (email : ResendEmail)
    (replyToBaseAddress : JsString) :
    Quiet (projectInboundEmail rt config scan now event email replyToBaseAddress) := by
  intro db m db' h
  obtain ⟨_, _, hget, h⟩ := bind_eq_ok.mp h
  obtain ⟨rfl, rfl⟩ := get_eq_ok.mp hget
  have hv : ∀ target, Vacant (unassignedConversations target
      ((findRelatedMessages rt db scan (parseInboundEmail rt event email)).eligible ++
        (findRelatedMessages rt db scan (parseInboundEmail rt event email)).waitingChildren)) db :=
    fun _ => vacant_unassigned fun _ ht => conversation_of_mem_relatedMessages ht
  dsimp only at h
  cases hexisting : (scan.order (db.messages.select fun m =>
      m.kind == .conversation && carriesIdentity event (parseInboundEmail rt event email)
        m)).head? with
  | some existing =>
      rw [hexisting] at h
      obtain ⟨-, rfl⟩ := pure_eq_ok.mp h
      exact Std.Refl.refl db
  | none =>
      rw [hexisting] at h
      dsimp only at h
      cases hchosen : chooseConversation rt db (parseInboundEmail rt event email)
          (findRelatedMessages rt db scan (parseInboundEmail rt event email))
            replyToBaseAddress with
      | some conversation =>
          rw [hchosen] at h
          exact projectInto_passive (hv _) h
      | none =>
          rw [hchosen] at h
          obtain ⟨conversation, db₁, h₁, h⟩ := bind_eq_ok.mp h
          have hk := keepsVacant_newInboundConversation _ _ _ h₁
          exact (quiet_newInboundConversation _ _ _ h₁).trans
            (projectInto_passive (hk.vacant (hv _)) h)

/-! ### Operator requests and webhooks -/

theorem quiet_assignTopic (config : Config) (now : Time) (id : Uuid) (topic : JsString × JsString)
    (title : JsString) : Quiet (assignTopic config now id topic title : Transaction Digest _) := by
  refine .bind .get fun db => ?_
  split
  · exact .pure _
  · exact .ite (.pure _) (.bind (quiet_updateConversation fun _ _ => rfl) fun _ =>
      .bind (quiet_appendConversationEvent _ _) fun _ => .pure _)

theorem quiet_setConversationState (config : Config) (now : Time) (id : Uuid)
    (state : ConversationState) :
    Quiet (setConversationState config now id state : Transaction Digest _) := by
  refine .bind .get fun db => ?_
  split
  · exact .pure _
  · exact .bind (quiet_updateConversation fun _ h => h) fun _ =>
      .ite (.bind (quiet_appendConversationEvent _ _) fun _ => .pure _) (.pure _)

theorem quiet_grantIdentity (entry : EmailAddressAllowlistEntry) :
    Quiet (grantIdentity entry : Transaction Digest _) :=
  quiet_insertRow fun _ _ _ => .of_messages_eq le_rfl rfl (.of_eq rfl) rfl rfl rfl rfl rfl

theorem quiet_revokeIdentity (entry : EmailAddressAllowlistEntry) :
    Quiet (revokeIdentity entry : Transaction Digest _) :=
  .modify fun _ => .of_messages_eq le_rfl rfl (.of_eq rfl) rfl rfl rfl rfl rfl

end ResendConversation
