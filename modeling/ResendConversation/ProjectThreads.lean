import ResendConversation.RecordThreads

/-! # A projection as events

`projectInboundEmail` stores a received email in a conversation: the one that the related
messages or its routing tag select, or one that it begins.  Before the email is stored, the
unassigned conversations of the related messages are merged into that conversation, so its
parent is there too; afterwards the email adopts the replies that wait for it there. -/

namespace ResendConversation

open Foundation Tx

variable {Digest : Type} {lower : JsString → JsString}

/-! ### The choice of the conversation -/

theorem mem_eligible_of_parent {rt : Runtime Digest} {db : Database Digest}
    {scan : Scan (EmailMessage Digest)} {inbound : InboundEmail} {t : ThreadedMessage Digest}
    (h : (findRelatedMessages rt db scan inbound).parent = some t) :
    t ∈ (findRelatedMessages rt db scan inbound).eligible := by
  obtain ⟨id, -, hfind⟩ := Option.bind_eq_some_iff.mp h
  exact List.mem_of_find?_eq_some hfind

theorem mem_eligible_of_ancestor {rt : Runtime Digest} {db : Database Digest}
    {scan : Scan (EmailMessage Digest)} {inbound : InboundEmail} {t : ThreadedMessage Digest}
    (h : (findRelatedMessages rt db scan inbound).nearestAncestor = some t) :
    t ∈ (findRelatedMessages rt db scan inbound).eligible := by
  obtain ⟨id, -, hfind⟩ := List.exists_of_findSome?_eq_some h
  exact List.mem_of_find?_eq_some hfind

/-- The related messages of a received email are stored in conversations of its sender. -/
theorem related_stored {rt : Runtime Digest} {db : Database Digest}
    {scan : Scan (EmailMessage Digest)} {inbound : InboundEmail} {t : ThreadedMessage Digest}
    (h : t ∈ (findRelatedMessages rt db scan inbound).eligible ++
      (findRelatedMessages rt db scan inbound).waitingChildren) :
    t.message ∈ db.messages ∧ t.message.conversationId = some t.conversation.id ∧
      db.conversations.get? t.conversation.id = some t.conversation ∧
      rt.toLowerCase t.conversation.participantAddress = inbound.participantAddress := by
  rcases List.mem_append.mp h with h | h
  · obtain ⟨hm, -, -, hc, hget, hp⟩ := mem_eligibleFor.mp h
    exact ⟨hm, hc, hget, hp⟩
  · obtain ⟨hm, -, -, hc, hget, hp⟩ := mem_eligibleFor.mp h
    exact ⟨hm, hc, hget, hp⟩

theorem routedConversation_stored {rt : Runtime Digest} {db : Database Digest}
    {inbound : InboundEmail} {base : JsString} {c : EmailConversation}
    (h : routedConversation rt db inbound base = some c) :
    db.conversations.get? c.id = some c ∧
      rt.toLowerCase c.participantAddress = inbound.participantAddress := by
  unfold routedConversation at h
  dsimp only at h
  split at h
  next d heq =>
    cases h
    have hmem : c ∈ [c] := List.mem_singleton_self c
    rw [← heq, List.mem_filter, Bool.and_eq_true, beq_iff_eq] at hmem
    exact ⟨Table.mem_iff_get?.mp hmem.1, hmem.2.1⟩
  next => cases h

/-- The chosen conversation is that of a related message, or a routing tag names it. -/
theorem chooseConversation_found {rt : Runtime Digest} {db : Database Digest}
    {scan : Scan (EmailMessage Digest)} {inbound : InboundEmail} {base : JsString}
    {c : EmailConversation}
    (h : chooseConversation rt db inbound (findRelatedMessages rt db scan inbound) base = some c) :
    (∃ t ∈ (findRelatedMessages rt db scan inbound).eligible ++
      (findRelatedMessages rt db scan inbound).waitingChildren, t.conversation = c) ∨
      routedConversation rt db inbound base = some c := by
  set related := findRelatedMessages rt db scan inbound with hrelated
  have hparent : ∀ d, related.parent.map ThreadedMessage.conversation = some d →
      ∃ t ∈ related.eligible ++ related.waitingChildren, t.conversation = d := by
    intro d hd
    obtain ⟨t, ht, rfl⟩ := Option.map_eq_some_iff.mp hd
    exact ⟨t, List.mem_append_left _ (mem_eligible_of_parent ht), rfl⟩
  have hancestor : ∀ d, related.nearestAncestor.map ThreadedMessage.conversation = some d →
      ∃ t ∈ related.eligible ++ related.waitingChildren, t.conversation = d := by
    intro d hd
    obtain ⟨t, ht, rfl⟩ := Option.map_eq_some_iff.mp hd
    exact ⟨t, List.mem_append_left _ (mem_eligible_of_ancestor ht), rfl⟩
  have hwaiting : ∀ d ∈ related.waitingChildren.map ThreadedMessage.conversation,
      ∃ t ∈ related.eligible ++ related.waitingChildren, t.conversation = d := by
    intro d hd
    obtain ⟨t, ht, rfl⟩ := List.mem_map.mp hd
    exact ⟨t, List.mem_append_right _ ht, rfl⟩
  simp only [chooseConversation, Option.or_eq_some_iff, Option.filter_eq_some_iff] at h
  rcases h with ⟨h, -⟩ | ⟨-, ⟨h, -⟩ | ⟨-, h | ⟨-, h | ⟨-, h | ⟨-, h | ⟨-, h⟩⟩⟩⟩⟩⟩
  · exact .inl (hparent c h)
  · exact .inl (hancestor c h)
  · exact .inl (hwaiting c (List.mem_of_find?_eq_some h))
  · exact .inl (hparent c h)
  · exact .inl (hancestor c h)
  · exact .inl (hwaiting c (List.mem_of_mem_head? h))
  · exact .inr h

/-- The chosen conversation is stored and belongs to the sender; it is that of the parent when
the parent's conversation has a topic. -/
theorem chooseConversation_stored {rt : Runtime Digest} {db : Database Digest}
    {scan : Scan (EmailMessage Digest)} {inbound : InboundEmail} {base : JsString}
    {c : EmailConversation}
    (h : chooseConversation rt db inbound (findRelatedMessages rt db scan inbound) base = some c) :
    db.conversations.get? c.id = some c ∧
      rt.toLowerCase c.participantAddress = inbound.participantAddress ∧
      ∀ t, (findRelatedMessages rt db scan inbound).parent = some t →
        t.conversation.topicType.isSome → t.conversation = c := by
  have hfound : db.conversations.get? c.id = some c ∧
      rt.toLowerCase c.participantAddress = inbound.participantAddress := by
    rcases chooseConversation_found h with ⟨t, ht, rfl⟩ | hrouted
    · exact (related_stored ht).2.2
    · exact routedConversation_stored hrouted
  refine ⟨hfound.1, hfound.2, fun t ht htopic => ?_⟩
  have hfirst :
      ((findRelatedMessages rt db scan inbound).parent.map ThreadedMessage.conversation).filter
      (fun c => c.topicType.isSome) = some t.conversation := by
    rw [ht, Option.map_some, Option.filter_some, if_pos htopic]
  simp only [chooseConversation, hfirst, Option.some_or, Option.some.injEq] at h
  exact h

/-- Where no conversation is chosen, no stored message is related. -/
theorem unrelated_of_chooseConversation {rt : Runtime Digest} {db : Database Digest}
    {scan : Scan (EmailMessage Digest)} {inbound : InboundEmail} {base : JsString}
    (h : chooseConversation rt db inbound (findRelatedMessages rt db scan inbound) base = none) :
    (findRelatedMessages rt db scan inbound).parent = none := by
  simp only [chooseConversation, Option.or_eq_none_iff, Option.map_eq_none_iff] at h
  exact h.2.2.2.1

/-! ### The threads around a projection -/

/-- The state in which an email is stored: the sources are merged into its conversation. -/
def Threads.gather (t : Threads) (c : Uuid) (sources : List Uuid) (x : Uuid) : Threads :=
  { t.absorb c sources with nextId := x }

/-- The threads around the storing of an email with the Message-ID `mid` from `participant`, as
the message `x` of the conversation `c`. -/
structure Projected (lower : JsString → JsString) (t t' : Threads) (participant mid : JsString)
    (v : ThreadView) (c x : Uuid) (sources children : List Uuid) : Prop where
  found : ∃ row, t.conversations c = some row ∧ lower row.participantAddress = participant
  kind : v.kind = .conversation
  direction : v.direction = .inbound
  conversationId : v.conversationId = some c
  sender : lower v.fromAddress = participant
  internetMessageId : v.internetMessageId = some mid
  parent : ∀ q, v.parentMessageId = some q →
    ∃ w, t.messages q = some w ∧ (w.move c sources).conversationId = some c
  target_notMem : c ∉ sources
  absorbable : ∀ s ∈ sources, ∃ source, t.conversations s = some source ∧ source.topicType = none ∧
    lower source.participantAddress = participant
  nextId_le : t.nextId ≤ x
  fresh : t.messages x = none
  unused : t.Unused x (some mid)
  adopted : ∀ k, k ∈ children ↔ ∃ w,
    ((t.gather c sources x).apply (.stored x v)).messages k = some w ∧ Threads.Waits c mid w
  after : (threading lower).Explains ThreadEvent.IsMinor
    (((t.gather c sources x).apply (.stored x v)).apply (.adopted x children)) t'

theorem createMessage_threads {row : Uuid → EmailMessage Digest} (hid : ∀ id, (row id).id = id)
    {db db' : Database Digest} {m : EmailMessage Digest} (h : createMessage row db = .ok (m, db')) :
    m = row db.nextId ∧ db.threads.messages db.nextId = none ∧
      db.threads.Unused db.nextId m.internetMessageId ∧
      db'.threads = db.threads.apply (.stored db.nextId m.threadView) := by
  obtain ⟨rfl, hcreated⟩ := createMessage_eq_ok h
  have hfree := hcreated.free
  simp only [createMessage, bind_eq_ok, freshId_eq_ok, checkTexts_eq_ok, checkMessage_eq_ok,
    not_takenBy] at h
  obtain ⟨_, _, ⟨rfl, rfl⟩, _, _, ⟨-, rfl⟩, _, _, ⟨-, hunused, -⟩, -⟩ := h
  rw [hid] at hfree
  refine ⟨rfl, by simp [Database.threads, hfree], unused_of_check fun m hm hne => ?_, ?_⟩
  · exact hunused m hm (by rwa [hid])
  · obtain ⟨table, ht, rfl⟩ := hcreated.table
    refine Threads.ext rfl (funext fun k => ?_) rfl rfl
    simp only [Database.threads, Threads.apply, Function.update_apply,
      Table.get?_of_insert? ht, hid]
    by_cases hk : k = db.nextId
    · simp [hk]
    · simp [hk, Ne.symm hk]

/-- Still databases agree on the messages that threading selects. -/
theorem Still.messages {db db' : Database Digest} (h : Still db db') :
    db'.threads.messages = db.threads.messages := by rw [h.threads]

/-- The replies that wait for an email in a conversation, as a statement selects them. -/
def isWaiting (c : Uuid) (mid : JsString) (m : EmailMessage Digest) : Bool :=
  m.parentMessageId.isNone && m.inReplyToInternetMessageId == some mid && m.conversationId == some c

theorem mem_selectedIds_isWaiting {db : Database Digest} {c k : Uuid} {mid : JsString} :
    k ∈ selectedIds db (isWaiting c mid) ↔
      ∃ w, db.threads.messages k = some w ∧ Threads.Waits c mid w := by
  simp only [mem_selectedIds, isWaiting, Bool.and_eq_true, Option.isNone_iff_eq_none, beq_iff_eq,
    Database.threads, Option.map_eq_some_iff]
  constructor
  · rintro ⟨m, hm, ⟨hp, hr⟩, hc⟩
    exact ⟨m.threadView, ⟨m, hm, rfl⟩, hp, hc, hr⟩
  · rintro ⟨w, ⟨m, hm, rfl⟩, hp, hc, hr⟩
    exact ⟨m, hm, ⟨hp, hr⟩, hc⟩

/-- The event that a projection appends for its email, and what depends on it. -/
def finishTail (config : Config) (inbound : InboundEmail) (conversation : EmailConversation)
    (createdConversation : Bool) (messageId : Uuid) (event : ConversationEventInput) :
    Transaction Digest Unit := do
  let _ ← appendConversationEvent config event
  adoptReplies messageId (isWaiting conversation.id inbound.internetMessageId)
  refreshLastMessageAt conversation.id
  let stateChanged ← markConversationAwaitingUs conversation.id inbound.emailCreatedAt
  if stateChanged && !createdConversation then
    let _ ← appendConversationEvent config
      { conversationId := conversation.id
        type := .stateChanged
        occurredAt := inbound.emailCreatedAt
        actor := .participant
        cause := js "inbound_email"
        state := some (some conversation.state, .awaitingUs) }
    pure ()
  else pure ()

theorem finishProjection_eq (config : Config) (inbound : InboundEmail)
    (conversation : EmailConversation) (created : Bool) (messageId : Uuid) (count : ℕ) :
    ∃ createdEvent receivedEvent,
      (finishProjection config inbound conversation created messageId count :
        Transaction Digest Unit) = if created then do
          let _ ← appendConversationEvent config createdEvent
          finishTail config inbound conversation created messageId receivedEvent
        else finishTail config inbound conversation created messageId receivedEvent :=
  ⟨_, _, rfl⟩

theorem finishTail_threads (lower : JsString → JsString) {config : Config} {inbound : InboundEmail}
    {conversation : EmailConversation} {created : Bool} {x : Uuid} {event : ConversationEventInput}
    {db db' : Database Digest} {u : Unit}
    (h : finishTail config inbound conversation created x event db = .ok (u, db')) :
    ∃ children, (∀ k, k ∈ children ↔ ∃ w, db.threads.messages k = some w ∧
        Threads.Waits conversation.id inbound.internetMessageId w) ∧
      (threading lower).Explains ThreadEvent.IsMinor (db.threads.apply (.adopted x children))
        db'.threads := by
  obtain ⟨_, db₁, h₁, h⟩ := bind_eq_ok.mp h
  obtain ⟨_, db₂, h₂, h⟩ := bind_eq_ok.mp h
  have ht₁ := still_appendConversationEvent _ _ h₁
  have ht₂ := adoptReplies_threads h₂
  have hrest : Woven lower ThreadEvent.IsMinor db₂ db' :=
    ((Preserves.bind (fun _ _ _ h => .of_still (keeps_refreshLastMessageAt _ h)
      (still_refreshLastMessageAt _ h)) fun _ => .bind (minor_applyAutomaticState _ _ _) fun _ =>
        .ite (.bind (minor_appendConversationEvent _ _) fun _ => .pure _) (.pure _) :
          Minor lower _) h).woven
  refine ⟨selectedIds db₁ (isWaiting conversation.id inbound.internetMessageId), fun k => ?_, ?_⟩
  · rw [← ht₁.messages]
    exact mem_selectedIds_isWaiting
  · have hdrawn : (threading lower).Explains ThreadEvent.IsMinor (db.threads.apply (.adopted x
        (selectedIds db₁ (isWaiting conversation.id inbound.internetMessageId)))) db₂.threads := by
      rw [ht₂, ht₁.threads]
      exact Threads.explains (e := .drawn db₁.nextId) trivial ht₁.nextId_le
    exact hdrawn.trans hrest

/-- After the email is stored, it adopts its replies, and the state may turn. -/
theorem finishProjection_threads (lower : JsString → JsString) {config : Config}
    {inbound : InboundEmail} {conversation : EmailConversation} {created : Bool} {x : Uuid}
    {count : ℕ} {db db' : Database Digest} {u : Unit}
    (h : finishProjection config inbound conversation created x count db = .ok (u, db')) :
    ∃ children, (∀ k, k ∈ children ↔ ∃ w, db.threads.messages k = some w ∧
        Threads.Waits conversation.id inbound.internetMessageId w) ∧
      (threading lower).Explains ThreadEvent.IsMinor (db.threads.apply (.adopted x children))
        db'.threads := by
  obtain ⟨createdEvent, receivedEvent, heq⟩ :=
    @finishProjection_eq Digest config inbound conversation created x count
  rw [heq] at h
  split at h
  · obtain ⟨_, db₁, h₁, h⟩ := bind_eq_ok.mp h
    have ht₁ := still_appendConversationEvent _ _ h₁
    obtain ⟨children, hchildren, hrest⟩ := finishTail_threads lower h
    rw [ht₁.messages] at hchildren
    refine ⟨children, hchildren, .trans ?_ hrest⟩
    rw [ht₁.threads]
    exact Threads.explains (e := .drawn db₁.nextId) trivial ht₁.nextId_le
  · exact finishTail_threads lower h

/-! ### The transaction -/

theorem ThreadView.move_parentMessageId (c : Uuid) (sources : List Uuid) (v : ThreadView) :
    (v.move c sources).parentMessageId = v.parentMessageId := by
  unfold ThreadView.move
  split <;> rfl

/-- The writes of a projection: `related` are stored messages of the sender, and the parent's
conversation is `conversation` or has no topic. -/
theorem projectInto_threads {rt : Runtime Digest} {config : Config} {now : Time}
    {event : EmailEventData} {email : ResendEmail} {related : RelatedMessages Digest}
    {conversation : EmailConversation} {created : Bool} {db db' : Database Digest}
    {m : EmailMessage Digest}
    (hstored : ∀ t ∈ related.eligible ++ related.waitingChildren,
      t.message ∈ db.messages ∧ t.message.conversationId = some t.conversation.id ∧
        db.conversations.get? t.conversation.id = some t.conversation ∧
        rt.toLowerCase t.conversation.participantAddress =
          (parseInboundEmail rt event email).participantAddress)
    (hconversation : db.conversations.get? conversation.id = some conversation)
    (hparticipant : rt.toLowerCase conversation.participantAddress =
      (parseInboundEmail rt event email).participantAddress)
    (hparent : ∀ t, related.parent = some t → t ∈ related.eligible ∧
      (t.conversation.topicType.isSome → t.conversation = conversation))
    (h : projectInto rt config now event email related conversation created db = .ok (m, db')) :
    m = inboundMessage event email (parseInboundEmail rt event email) now m.id conversation.id
        (related.parent.map fun t => t.message.id) ∧
      ∃ children, Projected rt.toLowerCase db.threads db'.threads
        (parseInboundEmail rt event email).participantAddress
        (parseInboundEmail rt event email).internetMessageId m.threadView conversation.id m.id
        (unassignedConversations conversation.id (related.eligible ++ related.waitingChildren))
        children := by
  set inbound := parseInboundEmail rt event email with hinbound
  set sources :=
    unassignedConversations conversation.id (related.eligible ++ related.waitingChildren)
    with hsources
  have hholds : db.Holds (related.eligible ++ related.waitingChildren) :=
    fun t ht => (hstored t ht).2.2.1
  obtain ⟨_, db₁, h₁, h⟩ := bind_eq_ok.mp h
  obtain ⟨message, db₂, h₂, h⟩ := bind_eq_ok.mp h
  obtain ⟨count, db₃, h₃, h⟩ := bind_eq_ok.mp h
  obtain ⟨_, db₄, h₄, h⟩ := bind_eq_ok.mp h
  obtain ⟨rfl, rfl⟩ := pure_eq_ok.mp h
  obtain ⟨hn₁, ht₁⟩ := mergeUnassigned_threads hholds hconversation h₁
  obtain ⟨hmessage, hfresh, hunused, ht₂⟩ := createMessage_threads (fun _ => rfl) h₂
  have ht₃ := still_projectInboundAttachments _ _ _ _ _ _ h₃
  obtain ⟨children, hchildren, hafter⟩ := finishProjection_threads rt.toLowerCase h₄
  have hid : message.id = db₁.nextId := by rw [hmessage]; rfl
  rw [← hid] at ht₁ ht₂ hfresh hunused
  have hgather : db₂.threads = (db.threads.gather conversation.id sources message.id).apply
      (.stored message.id message.threadView) := by
    rw [ht₂, ht₁]
    rfl
  have hmoved : ∀ k, db₁.threads.messages k =
      (db.threads.messages k).map (ThreadView.move conversation.id sources) := by
    intro k
    rw [ht₁]
    exact Threads.absorb_messages _ _ _ k
  refine ⟨by rw [hid]; exact hmessage, children, ?_⟩
  exact
    { found := ⟨conversation.view, by simp [Database.threads, hconversation], hparticipant⟩
      kind := by rw [hmessage]; rfl
      direction := by rw [hmessage]; rfl
      conversationId := by rw [hmessage]; rfl
      sender := by rw [hmessage]; rfl
      internetMessageId := by rw [hmessage]; rfl
      parent := by
        intro q hq
        have hq' : related.parent.map (fun t => t.message.id) = some q := by
          rw [hmessage] at hq
          exact hq
        obtain ⟨t, ht, rfl⟩ := Option.map_eq_some_iff.mp hq'
        obtain ⟨hel, hassigned⟩ := hparent t ht
        obtain ⟨hm, hc, -, -⟩ := hstored t (List.mem_append_left _ hel)
        refine ⟨t.message.threadView,
          EmailMessage.threadView_of_get? (Table.mem_iff_get?.mp hm), ?_⟩
        by_cases heq : t.conversation.id = conversation.id
        · rw [ThreadView.move_of_notMem (heq ▸ hc) target_notMem_unassigned]
          exact heq ▸ hc
        · have htopic : t.conversation.topicType = none := by
            by_contra hsome
            exact heq (congrArg EmailConversation.id
              (hassigned (Option.isSome_iff_ne_none.mpr hsome)))
          have hsource : t.conversation.id ∈ sources :=
            mem_unassignedConversations.mpr ⟨t, List.mem_append_left _ hel, rfl, heq, htopic⟩
          simp [ThreadView.move, EmailMessage.threadView, hc, hsource]
      target_notMem := target_notMem_unassigned
      absorbable := by
        intro s hs
        obtain ⟨t, ht, rfl, -, htopic⟩ := mem_unassignedConversations.mp hs
        obtain ⟨-, -, hget, hp⟩ := hstored t ht
        exact ⟨t.conversation.view, by simp [Database.threads, hget], htopic, hp⟩
      nextId_le := hid ▸ hn₁
      fresh := by
        rw [hmoved] at hfresh
        exact Option.map_eq_none_iff.mp hfresh
      unused := by
        intro mid k v hmid hne hv
        have hmid' : message.internetMessageId = some mid := by
          rw [hmessage]
          exact hmid
        have h' := hunused mid k _ hmid' hne ((hmoved k).trans (by rw [hv]; rfl))
        intro hvm
        refine h' ?_
        unfold ThreadView.move
        split <;> exact hvm
      adopted := by
        intro k
        rw [hchildren, ht₃.messages, hgather]
      after := by
        refine .trans ?_ hafter
        rw [ht₃.threads, hgather]
        exact Threads.explains (e := .drawn db₃.nextId) trivial
          ((congrArg Threads.nextId hgather).ge.trans ht₃.nextId_le) }

/-- A new conversation as an event. -/
theorem begun_of_insert (lower : JsString → JsString) (db : Database Digest)
    {row : EmailConversation} {table : Table EmailConversation.id} (hid : row.id = db.nextId)
    (htoken : row.routingToken = uuidText (db.nextId + 1))
    (hfounding : Threads.Founding lower row.view) (ht : db.conversations.insert? row = some table) :
    db.threads.Enabled lower (.begun row.id row.view) ∧
      Database.threads { db with nextId := db.nextId + 2, conversations := table } =
        db.threads.apply (.begun row.id row.view) := by
  have hfree := Table.insert?_eq_some_iff.mp ⟨table, ht⟩
  refine ⟨⟨hid, by simp [Database.threads, hfree], hid ▸ htoken, hfounding⟩, ?_⟩
  refine Threads.ext (by simp [Threads.apply, Database.threads, hid]) rfl (funext fun k => ?_) rfl
  simp only [Database.threads, Threads.apply, Function.update_apply, Table.get?_of_insert? ht]
  by_cases hk : k = row.id
  · simp [hk]
  · simp [hk, Ne.symm hk]

/-- A conversation that a received email begins. -/
theorem newInboundConversation_threads (lower : JsString → JsString) {email : ResendEmail}
    {inbound : InboundEmail} {now : Time} {db db' : Database Digest} {c : EmailConversation}
    (h : newInboundConversation email inbound now db = .ok (c, db')) :
    db.threads.Enabled lower (.begun c.id c.view) ∧
      db'.threads = db.threads.apply (.begun c.id c.view) ∧ db'.messages = db.messages ∧
      (∀ k row, db.conversations.get? k = some row → db'.conversations.get? k = some row) ∧
      db'.conversations.get? c.id = some c ∧ c.participantAddress = inbound.participant.address ∧
      c.topicType = none := by
  simp only [newInboundConversation, bind_eq_ok, freshId_eq_ok, pure_eq_ok] at h
  obtain ⟨_, _, ⟨rfl, rfl⟩, _, _, ⟨rfl, rfl⟩, _, _, hc, rfl, rfl⟩ := h
  obtain ⟨table, ht, rfl⟩ := createConversation_eq_ok hc
  have hfree := Table.insert?_eq_some_iff.mp ⟨table, ht⟩
  have hget := Table.get?_of_insert? ht
  obtain ⟨henabled, hthreads⟩ := begun_of_insert lower db rfl rfl
    (.inbound rfl rfl rfl rfl rfl rfl) ht
  refine ⟨henabled, hthreads, rfl, fun k row hk => ?_, ?_, rfl, rfl⟩
  · rw [hget]
    split
    next heq =>
      dsimp only at heq hfree
      rw [← heq, hfree] at hk
      cases hk
    next => exact hk
  · rw [hget, if_pos rfl]

/-- The conversation of a projected email, and the threads once it exists: it was chosen, or the
email begins it. -/
inductive ProjectionTarget (rt : Runtime Digest) (db : Database Digest)
    (scan : Scan (EmailMessage Digest)) (inbound : InboundEmail) (base : JsString) :
    EmailConversation → Threads → Prop
  | chosen {c : EmailConversation} (choice : chooseConversation rt db inbound
      (findRelatedMessages rt db scan inbound) base = some c) :
      ProjectionTarget rt db scan inbound base c db.threads
  | begun {c : EmailConversation} (choice : chooseConversation rt db inbound
      (findRelatedMessages rt db scan inbound) base = none)
      (enabled : db.threads.Enabled rt.toLowerCase (.begun c.id c.view))
        (topic : c.topicType = none) :
      ProjectionTarget rt db scan inbound base c (db.threads.apply (.begun c.id c.view))

theorem projectInboundEmail_threads {rt : Runtime Digest} {config : Config}
    {scan : Scan (EmailMessage Digest)} {now : Time} {event : EmailEventData} {email : ResendEmail}
    {base : JsString} {db db' : Database Digest} {m : EmailMessage Digest}
    (h : projectInboundEmail rt config scan now event email base db = .ok (m, db')) :
    (db' = db ∧ m ∈ db.messages ∧ m.kind = .conversation ∧
      carriesIdentity event (parseInboundEmail rt event email) m = true) ∨
    (∀ m ∈ db.messages, m.kind = .conversation →
      carriesIdentity event (parseInboundEmail rt event email) m = false) ∧
    ∃ conversation t₀ children,
      ProjectionTarget rt db scan (parseInboundEmail rt event email) base conversation t₀ ∧
      m = inboundMessage event email (parseInboundEmail rt event email) now m.id conversation.id
        ((findRelatedMessages rt db scan (parseInboundEmail rt event email)).parent.map
          fun t => t.message.id) ∧
      Projected rt.toLowerCase t₀ db'.threads (parseInboundEmail rt event email).participantAddress
        (parseInboundEmail rt event email).internetMessageId m.threadView conversation.id m.id
        (unassignedConversations conversation.id
          ((findRelatedMessages rt db scan (parseInboundEmail rt event email)).eligible ++
            (findRelatedMessages rt db scan (parseInboundEmail rt event email)).waitingChildren))
        children := by
  obtain ⟨_, _, hget, h⟩ := bind_eq_ok.mp h
  obtain ⟨rfl, rfl⟩ := get_eq_ok.mp hget
  dsimp only at h
  set inbound := parseInboundEmail rt event email with hinbound
  set related := findRelatedMessages rt db scan inbound with hrelated
  cases hexisting : (scan.order (db.messages.select fun m =>
      m.kind == .conversation && carriesIdentity event inbound m)).head? with
  | some existing =>
      rw [hexisting] at h
      obtain ⟨rfl, rfl⟩ := pure_eq_ok.mp h
      have hmem := (scan.perm _).mem_iff.mp (List.mem_of_mem_head? hexisting)
      rw [Table.mem_select, Bool.and_eq_true, beq_iff_eq] at hmem
      exact .inl ⟨rfl, hmem.1, hmem.2.1, hmem.2.2⟩
  | none =>
      rw [hexisting] at h
      dsimp only at h
      have hnone : ∀ m ∈ db.messages, m.kind = .conversation →
          carriesIdentity event inbound m = false := by
        intro m hm hkind
        have hnil := List.head?_eq_none_iff.mp hexisting
        have hempty : (db.messages.select fun m =>
            m.kind == .conversation && carriesIdentity event inbound m) = [] := by
          have hperm := scan.perm (db.messages.select fun m =>
            m.kind == .conversation && carriesIdentity event inbound m)
          rw [hnil] at hperm
          exact hperm.nil_eq.symm
        have hnot := List.filter_eq_nil_iff.mp hempty m hm
        simpa [hkind] using hnot
      refine .inr ⟨hnone, ?_⟩
      cases hchosen : chooseConversation rt db inbound related base with
      | some conversation =>
          rw [hchosen] at h
          obtain ⟨hstored, hparticipant, hparent⟩ := chooseConversation_stored hchosen
          obtain ⟨hm, children, hprojected⟩ := projectInto_threads
            (fun t ht => related_stored ht) hstored hparticipant
            (fun t ht => ⟨mem_eligible_of_parent ht, hparent t ht⟩) h
          exact ⟨conversation, _, children, .chosen hchosen, hm, hprojected⟩
      | none =>
          rw [hchosen] at h
          obtain ⟨conversation, db₁, h₁, h⟩ := bind_eq_ok.mp h
          obtain ⟨henabled, ht₁, hm₁, hkeep, hstored, hparticipant, htopic⟩ :=
            newInboundConversation_threads rt.toLowerCase h₁
          have hparent : related.parent = none := unrelated_of_chooseConversation hchosen
          have hrelated₁ : ∀ t ∈ related.eligible ++ related.waitingChildren,
              t.message ∈ db₁.messages ∧ t.message.conversationId = some t.conversation.id ∧
                db₁.conversations.get? t.conversation.id = some t.conversation ∧
                rt.toLowerCase t.conversation.participantAddress = inbound.participantAddress := by
            intro t ht
            obtain ⟨htm, htc, hget, hp⟩ := related_stored ht
            exact ⟨hm₁ ▸ htm, htc, hkeep _ _ hget, hp⟩
          obtain ⟨hm, children, hprojected⟩ := projectInto_threads hrelated₁ hstored
            (congrArg rt.toLowerCase hparticipant) (fun t ht => by rw [hparent] at ht; cases ht) h
          rw [ht₁] at hprojected
          exact ⟨conversation, _, children, .begun hchosen henabled htopic, hm, hprojected⟩

/-! ### Consequences -/

/-- The target of a merge keeps its participant, its token and its topic. -/
theorem Threads.absorb_target {t : Threads} {c : Uuid} {sources : List Uuid}
    {row : ConversationView} (hrow : t.conversations c = some row) (hc : c ∉ sources) :
    ∃ row', (t.absorb c sources).conversations c = some row' ∧
      row'.participantAddress = row.participantAddress ∧ row'.routingToken = row.routingToken ∧
      row'.topicType = row.topicType := by
  unfold Threads.absorb
  split
  · exact ⟨row, hrow, rfl, rfl, rfl⟩
  · exact ⟨row.merge (t.rows sources), by simp [Threads.apply, hc, hrow], rfl, rfl, rfl⟩

/-- A merge leaves the Message-IDs alone. -/
theorem Threads.Unused.absorb {t : Threads} {x : Uuid} {mid : Option JsString} (h : t.Unused x mid)
    (c : Uuid) (sources : List Uuid) : (t.absorb c sources).Unused x mid := by
  intro i k v hi hne hv
  rw [Threads.absorb_messages] at hv
  obtain ⟨w, hw, rfl⟩ := Option.map_eq_some_iff.mp hv
  have hnot := h i k w hi hne hw
  unfold ThreadView.move
  split <;> exact hnot

namespace Projected

variable {t t' : Threads} {participant mid : JsString} {v : ThreadView} {c x : Uuid}
  {sources children : List Uuid}

theorem enabled_stored (h : Projected lower t t' participant mid v c x sources children) :
    (t.gather c sources x).Enabled lower (.stored x v) := by
  obtain ⟨row, hrow, hparticipant⟩ := h.found
  obtain ⟨row', hrow', hp', -⟩ := Threads.absorb_target hrow h.target_notMem
  refine ⟨rfl, ?_, ?_, ?_⟩
  · simp [Threads.gather, Threads.absorb_messages, h.fresh]
  · rw [h.internetMessageId]
    exact h.unused.absorb c sources
  · rw [h.conversationId]
    refine ⟨row', h.kind, hrow', fun q hq => ?_, fun _ => ?_, fun hout => ?_⟩
    · obtain ⟨w, hw, hmove⟩ := h.parent q hq
      exact ⟨w.move c sources, by simp [Threads.gather, Threads.absorb_messages, hw], hmove⟩
    · rw [hp', hparticipant, h.sender, h.internetMessageId]
      exact ⟨rfl, rfl⟩
    · rw [h.direction] at hout
      cases hout

theorem enabled_adopted (h : Projected lower t t' participant mid v c x sources children) :
    ((t.gather c sources x).apply (.stored x v)).Enabled lower (.adopted x children) :=
  ⟨v, c, mid, by simp [Threads.apply], h.conversationId, h.internetMessageId,
    fun k hk => (h.adopted k).mp hk⟩

theorem unbased (h : Projected lower t t' participant mid v c x sources children) :
    (threading lower).Explains ThreadEvent.IsUnbased t t' := by
  obtain ⟨row, hrow, hparticipant⟩ := h.found
  have habsorb : (threading lower).Explains ThreadEvent.IsUnbased t (t.absorb c sources) :=
    explains_absorb trivial h.target_notMem ⟨row, hrow, fun s hs => by
      obtain ⟨source, hsource, htopic, hp⟩ := h.absorbable s hs
      exact ⟨source, hsource, htopic, hp.trans hparticipant.symm⟩⟩
  have hn : (t.absorb c sources).nextId = t.nextId := by
    unfold Threads.absorb
    split <;> rfl
  have hdrawn : (threading lower).Explains ThreadEvent.IsUnbased (t.absorb c sources)
      (t.gather c sources x) :=
    Threads.explains (e := .drawn x) trivial (hn.trans_le h.nextId_le)
  exact habsorb.trans (hdrawn.trans ((Threads.explains trivial h.enabled_stored).trans
    ((Threads.explains trivial h.enabled_adopted).trans
      (h.after.mono fun _ => ThreadEvent.IsMinor.isUnbased))))

end Projected

theorem unbased_projectInboundEmail (rt : Runtime Digest) (config : Config)
    (scan : Scan (EmailMessage Digest)) (now : Time) (event : EmailEventData) (email : ResendEmail)
    (base : JsString) : Preserves (Woven rt.toLowerCase ThreadEvent.IsUnbased)
      (projectInboundEmail rt config scan now event email base) := by
  intro db m db' h
  rcases projectInboundEmail_threads h with ⟨rfl, -⟩ | ⟨-, c, t₀, children, htarget, -, hprojected⟩
  · exact Std.Refl.refl _
  · cases htarget with
    | chosen choice => exact hprojected.unbased
    | begun choice enabled topic =>
        obtain ⟨-, -, -, hfounding⟩ := id enabled
        have hbase : c.view.replyToBaseAddress = none := by
          cases hfounding with
          | inbound version topicType externalTopicId base allowlist state => exact base
          | opening version topicType externalTopicId base state =>
              have hnone : c.view.topicType = none := topic
              rw [hnone] at topicType
              cases topicType
        exact (Threads.explains (e := .begun c.id c.view) hbase enabled).trans hprojected.unbased

theorem woven_projectInboundEmail (rt : Runtime Digest) (config : Config)
    (scan : Scan (EmailMessage Digest)) (now : Time) (event : EmailEventData) (email : ResendEmail)
    (base : JsString) : Preserves (Woven rt.toLowerCase ThreadEvent.IsMail)
      (projectInboundEmail rt config scan now event email base) := fun _ _ _ h =>
  (unbased_projectInboundEmail rt config scan now event email base h).mono fun _ =>
    ThreadEvent.IsUnbased.isMail

/-! ### Constraints -/

theorem keeps_applyAutomaticState (id : Uuid) (state : ConversationState) (changedAt : Time) :
    Preserves Keeps (applyAutomaticState id state changedAt : Transaction Digest _) :=
  .bind (keeps_updateConversations fun _ => ⟨rfl, rfl, rfl, rfl, rfl, rfl⟩) fun _ => .pure _

theorem keeps_newInboundConversation (email : ResendEmail) (inbound : InboundEmail) (now : Time) :
    Preserves Keeps (newInboundConversation email inbound now : Transaction Digest _) := by
  intro db c db' h hs
  simp only [newInboundConversation, bind_eq_ok, freshId_eq_ok, pure_eq_ok] at h
  obtain ⟨_, _, ⟨rfl, rfl⟩, _, _, ⟨rfl, rfl⟩, _, _, hc, rfl, rfl⟩ := h
  exact sound_createConversation hs rfl (Nat.lt_add_of_pos_right Nat.two_pos) hc

theorem finishTail_keeps {config : Config} {inbound : InboundEmail}
    {conversation : EmailConversation} {created : Bool} {x : Uuid} {event : ConversationEventInput}
    {db db' : Database Digest} {u : Unit} (hx : (db.threads.messages x).isSome)
    (h : finishTail config inbound conversation created x event db = .ok (u, db')) :
    Keeps db db' := by
  obtain ⟨_, db₁, h₁, h⟩ := bind_eq_ok.mp h
  obtain ⟨_, db₂, h₂, h⟩ := bind_eq_ok.mp h
  have hx₁ : (db₁.messages.get? x).isSome := by
    rw [← (still_appendConversationEvent _ _ h₁).messages] at hx
    simpa [Database.threads] using hx
  have hrest : Keeps db₂ db' :=
    ((Preserves.bind (keeps_refreshLastMessageAt _) fun _ =>
      .bind (keeps_applyAutomaticState _ _ _) fun _ =>
        .ite (.bind (keeps_appendConversationEvent _ _) fun _ => .pure _) (.pure _) :
          Preserves Keeps _) h)
  intro hs
  refine hrest
    (keeps_adoptReplies hx₁ (fun m hm => ?_) h₂ (keeps_appendConversationEvent _ _ h₁ hs))
  simp only [isWaiting, Bool.and_eq_true, beq_iff_eq] at hm
  simp [hm.2]

theorem finishProjection_keeps {config : Config} {inbound : InboundEmail}
    {conversation : EmailConversation} {created : Bool} {x : Uuid} {count : ℕ}
    {db db' : Database Digest} {u : Unit} (hx : (db.threads.messages x).isSome)
    (h : finishProjection config inbound conversation created x count db = .ok (u, db')) :
    Keeps db db' := by
  obtain ⟨createdEvent, receivedEvent, heq⟩ :=
    @finishProjection_eq Digest config inbound conversation created x count
  rw [heq] at h
  split at h
  · obtain ⟨_, db₁, h₁, h⟩ := bind_eq_ok.mp h
    rw [← (still_appendConversationEvent _ _ h₁).messages] at hx
    exact fun hs => finishTail_keeps hx h (keeps_appendConversationEvent _ _ h₁ hs)
  · exact finishTail_keeps hx h

theorem projectInto_keeps {rt : Runtime Digest} {config : Config} {now : Time}
    {event : EmailEventData} {email : ResendEmail} {related : RelatedMessages Digest}
    {conversation : EmailConversation} {created : Bool} {db db' : Database Digest}
    {m : EmailMessage Digest}
    (hconversation : db.conversations.get? conversation.id = some conversation)
    (h : projectInto rt config now event email related conversation created db = .ok (m, db')) :
    Keeps db db' := by
  obtain ⟨_, db₁, h₁, h⟩ := bind_eq_ok.mp h
  obtain ⟨message, db₂, h₂, h⟩ := bind_eq_ok.mp h
  obtain ⟨count, db₃, h₃, h⟩ := bind_eq_ok.mp h
  obtain ⟨_, db₄, h₄, h⟩ := bind_eq_ok.mp h
  obtain ⟨rfl, rfl⟩ := pure_eq_ok.mp h
  obtain ⟨hmessage, -, -, ht₂⟩ := createMessage_threads (fun _ => rfl) h₂
  have hid : message.id = db₁.nextId := by rw [hmessage]; rfl
  have hx : (db₃.threads.messages message.id).isSome := by
    rw [(still_projectInboundAttachments _ _ _ _ _ _ h₃).messages, ht₂, hid]
    simp [Threads.apply]
  intro hs
  exact finishProjection_keeps hx h₄ (keeps_projectInboundAttachments _ _ _ _ _ _ h₃
    (keeps_createMessage (fun _ => rfl) h₂ (mergeUnassigned_keeps hconversation h₁ hs)))

theorem keeps_projectInboundEmail (rt : Runtime Digest) (config : Config)
    (scan : Scan (EmailMessage Digest)) (now : Time) (event : EmailEventData) (email : ResendEmail)
    (base : JsString) :
    Preserves Keeps (projectInboundEmail rt config scan now event email base) := by
  intro db m db' h
  obtain ⟨_, _, hget, h⟩ := bind_eq_ok.mp h
  obtain ⟨rfl, rfl⟩ := get_eq_ok.mp hget
  dsimp only at h
  cases hexisting : (scan.order (db.messages.select fun m => m.kind == .conversation &&
      carriesIdentity event (parseInboundEmail rt event email) m)).head? with
  | some existing =>
      rw [hexisting] at h
      obtain ⟨-, rfl⟩ := pure_eq_ok.mp h
      exact Std.Refl.refl db
  | none =>
      rw [hexisting] at h
      dsimp only at h
      cases hchosen : chooseConversation rt db (parseInboundEmail rt event email)
          (findRelatedMessages rt db scan (parseInboundEmail rt event email)) base with
      | some conversation =>
          rw [hchosen] at h
          exact projectInto_keeps (chooseConversation_stored hchosen).1 h
      | none =>
          rw [hchosen] at h
          obtain ⟨conversation, db₁, h₁, h⟩ := bind_eq_ok.mp h
          obtain ⟨-, -, -, -, hstored, -⟩ := newInboundConversation_threads rt.toLowerCase h₁
          exact fun hs => projectInto_keeps hstored h (keeps_newInboundConversation _ _ _ h₁ hs)

end ResendConversation
