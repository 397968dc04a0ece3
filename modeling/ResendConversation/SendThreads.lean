import ResendConversation.ProjectThreads
import ResendConversation.Storing

/-! # Sends as events

The transactions of the send requests: an opening begins a conversation and stores its first
message, a reopening rewrites a conversation without a live message, a reply fixes the Reply-To
base of its conversation, and a direct email belongs to none. -/

namespace ResendConversation

open Foundation Tx

variable {Digest : Type} {lower : JsString → JsString}

/-! ### The insertion -/

/-- The threads around the insertion of an outbound message. -/
structure OutboundStored (row : Uuid → EmailMessage Digest) (db db' : Database Digest) (id : Uuid) :
    Prop where
  id_eq : id = db.nextId
  fresh : db.threads.messages id = none
  unused : db.threads.Unused id (row id).internetMessageId
  shape : (row id).kindShape = true
  parent : ∀ p, (row id).parentMessageId = some p → ∃ m, db.messages.get? p = some m
  after : db'.threads = db.threads.apply (.stored id (row id).threadView)
  keeps : Keeps db db'

theorem createOutbound_threads {ctx : SendContext Digest} {row : Uuid → EmailMessage Digest}
    (hid : ∀ id, (row id).id = id) {db db' : Database Digest} {id : Uuid}
    (h : createOutbound ctx row db = .ok (id, db')) : OutboundStored row db db' id := by
  simp only [createOutbound, bind_eq_ok, pure_eq_ok] at h
  obtain ⟨m, db₁, hm, _, _, he, rfl, rfl⟩ := h
  obtain ⟨rfl, hfresh, hunused, ht⟩ := createMessage_threads hid hm
  have hkeeps := keeps_createMessage hid hm
  have hcheck := hm
  simp only [createMessage, bind_eq_ok, freshId_eq_ok, checkTexts_eq_ok,
    checkMessage_eq_ok] at hcheck
  obtain ⟨_, _, ⟨rfl, rfl⟩, _, _, ⟨-, rfl⟩, _, _, ⟨-, -, -, -, hparent, hshape, -⟩, -⟩ := hcheck
  have hentry : ∀ messageId, Minor id (createOutboxEntry ctx messageId) := fun messageId =>
    .ite (.ite (minor_insertRow fun _ _ => .of_eq le_rfl rfl rfl rfl rfl rfl rfl)
      (minor_insertRow fun _ _ => .of_eq le_rfl rfl rfl rfl rfl rfl rfl)) (.pure _)
  have hsame : ∀ messageId {db₁ db₂ : Database Digest} {u : Unit},
      createOutboxEntry ctx messageId db₁ = .ok (u, db₂) → db₂.threads = db₁.threads := by
    intro messageId db₁ db₂ u h
    unfold createOutboxEntry at h
    split at h
    · split at h
      · obtain ⟨_, -, rfl⟩ := insertRow_eq_ok.mp h
        rfl
      · obtain ⟨_, -, rfl⟩ := insertRow_eq_ok.mp h
        rfl
    · obtain ⟨-, rfl⟩ := pure_eq_ok.mp h
      rfl
  rw [hid]
  exact
    { id_eq := rfl
      fresh := hfresh
      unused := hunused
      shape := hshape
      parent := fun p hp => by simpa [hp, Option.isSome_iff_exists] using hparent
      after := by rw [hsame _ he, ht]
      keeps := fun hs => ((hentry _) he).keeps (hkeeps hs) }

theorem lockAllowedEmailIdentities_eq_ok {sender replyTo : JsString} {db db' : Database Digest}
    {allowed : Bool} (h : lockAllowedEmailIdentities sender replyTo db = .ok (allowed, db')) :
    db' = db := by
  simp only [lockAllowedEmailIdentities, bind_eq_ok, get_eq_ok, pure_eq_ok] at h
  obtain ⟨_, _, ⟨rfl, rfl⟩, -, rfl⟩ := h
  rfl

theorem parseBaseMailbox_of_build {base token r : JsString}
    (h : buildConversationReplyTo lower base token = some r) :
    (parseBaseMailbox lower base).isSome := by
  unfold buildConversationReplyTo at h
  dsimp only at h
  split at h
  · cases h
  next heq => rw [heq]; rfl

/-- The message may be stored in the conversation. -/
theorem OutboundStored.enabled (lower : JsString → JsString) {row : Uuid → EmailMessage Digest}
    {db db' : Database Digest} {id c : Uuid} {conversation : ConversationView}
    (h : OutboundStored row db db' id) (hc : (row id).conversationId = some c)
    (hjoins : db.threads.Joins lower (row id).threadView c conversation) :
    db.threads.Enabled lower (.stored id (row id).threadView) := by
  refine ⟨h.id_eq, h.fresh, h.unused, ?_⟩
  have hc' : (row id).threadView.conversationId = some c := hc
  rw [hc']
  exact ⟨conversation, hjoins⟩

/-- What the rest of a transaction adds is minor. -/
theorem Minor.isPlain {α : Type} {B : Set JsString} {x : Transaction Digest α} (h : Minor lower x) :
    Preserves (Lawful lower (ThreadEvent.IsPlain B)) x :=
  fun _ _ _ hx => (h hx).mono fun _ => ThreadEvent.IsMinor.isPlain

theorem minor_appendIntentEvents (ctx : SendContext Digest) (conversationId messageId : Uuid)
    (stateBefore : ConversationState) (stateChanged : Bool) :
    Minor lower (appendIntentEvents ctx conversationId messageId stateBefore stateChanged) :=
  .bind (minor_appendConversationEvent _ _) fun _ =>
    .ite (.bind (minor_appendConversationEvent _ _) fun _ => .pure _) (.pure _)

/-- The Reply-To base that a request asks for. -/
def SendRequest.bases : SendRequest → Set JsString
  | .opening _ value => {value.message.replyTo.address}
  | .reply _ _ value => {value.replyTo.address}
  | .direct _ _ => ∅

/-! ### Opening -/

theorem openConversation_threads {ctx : SendContext Digest} {value : CreateConversationV2Input}
    {db db' : Database Digest} {id : Uuid} (h : openConversation ctx value db = .ok (id, db')) :
    Lawful ctx.rt.toLowerCase (ThreadEvent.IsPlain {value.message.replyTo.address}) db db' := by
  simp only [openConversation, bind_eq_ok, ensure_eq_ok, orThrow_eq_ok, freshId_eq_ok,
    pure_eq_ok] at h
  obtain ⟨_, db₁, h₁, _, _, ⟨-, rfl⟩, _, _, ⟨rfl, rfl⟩, _, _, ⟨rfl, rfl⟩, r, _,
      ⟨hbuild, rfl⟩, _, db₂, h₂,
    _, db₃, h₃, _, db₄, h₄, _, db₅, h₅, _, db₆, h₆, rfl, rfl⟩ := h
  obtain rfl := lockAllowedEmailIdentities_eq_ok h₁
  have hkeeps : Keeps db₁ db₂ := fun hs =>
    sound_createConversation hs rfl (Nat.lt_add_of_pos_right Nat.two_pos) h₂
  obtain ⟨table, ht, rfl⟩ := createConversation_eq_ok h₂
  have hget := Table.get?_of_insert? ht
  -- the conversation begins
  obtain ⟨henabled, hthreads⟩ := begun_of_insert ctx.rt.toLowerCase db₁ rfl rfl
    (.opening rfl rfl rfl ⟨_, rfl, parseBaseMailbox_of_build hbuild⟩ rfl) ht
  have hbegun : Lawful ctx.rt.toLowerCase (ThreadEvent.IsPlain {value.message.replyTo.address}) db₁
      { db₁ with nextId := db₁.nextId + 1 + 1, conversations := table } :=
    ⟨.single (e := .begun _ _) (fun b hb => (Option.some.inj hb).symm) henabled hthreads, hkeeps⟩
  -- its first message is stored
  have hcreated := createOutbound_threads (fun _ => rfl) h₃
  have hfound := (hget db₁.nextId).trans (if_pos rfl)
  have hjoins := hcreated.enabled ctx.rt.toLowerCase rfl
    { kind := EmailMessage.kind_of_conversationId hcreated.shape rfl
      found := by
        change (table.get? db₁.nextId).map EmailConversation.view = _
        rw [hfound]
        rfl
      parent := fun p hp => by cases hp
      inbound := fun hin => by cases hin
      outbound := fun _ => ⟨rfl, _, r, rfl, rfl, hbuild⟩ }
  have hstored : Lawful ctx.rt.toLowerCase (ThreadEvent.IsPlain {value.message.replyTo.address})
      { db₁ with nextId := db₁.nextId + 1 + 1, conversations := table } db₃ :=
    ⟨.single (e := .stored _ _) trivial hjoins hcreated.after, hcreated.keeps⟩
  exact hbegun.trans (hstored.trans ((minor_claimAttachmentsForMessage _ _ _).isPlain h₄ |>.trans
    ((minor_appendConversationEvent _ _).isPlain h₅ |>.trans
      ((minor_appendConversationEvent _ _).isPlain h₆))))

/-! ### Replies -/

theorem still_updateAttachments {p : EmailAttachment → Bool} {f : EmailAttachment → EmailAttachment}
    {keep : ∀ a, (f a).id = a.id} :
    Preserves Still (updateAttachments p f keep : Transaction Digest _) := by
  intro db n db' h
  rw [updateAttachments, modifyGet_eq_ok, Prod.mk.injEq] at h
  obtain ⟨-, rfl⟩ := h
  exact .of_eq rfl

theorem still_claimAttachmentsForMessage (config : Config) (messageId : Uuid)
    (refs : Option (List EmailAttachmentRefInput)) :
    Preserves Still (claimAttachmentsForMessage config messageId refs : Transaction Digest _) := by
  have hset : ∀ refs, Preserves Still (setContentIds messageId refs : Transaction Digest _) := by
    intro refs
    induction refs with
    | nil => exact .pure _
    | cons ref refs ih => exact .bind still_updateAttachments fun _ => ih
  unfold claimAttachmentsForMessage
  split
  · exact .pure _
  · exact .pure _
  · exact .bind (.ensure _ _) fun _ => .bind still_updateAttachments fun _ =>
      .bind (.ensure _ _) fun _ => .bind (hset _) fun _ => .bind .get fun _ =>
        .bind (.ensure _ _) fun _ => .pure _

/-- The base of a request that passed the checks of a send transaction. -/
theorem fits_of_checks {c : EmailConversation} {replyTo : EmailIdentity} {token r : JsString}
    (hmatch : (!replyToMismatch c replyTo) = true)
    (hbuild : buildConversationReplyTo lower replyTo.address token = some r) :
    Threads.Fits lower c.view replyTo.address where
  valid := parseBaseMailbox_of_build hbuild
  agrees := by
    intro b hb
    have hb' : c.replyToBaseAddress.bind orNull = some b := hb
    simpa [replyToMismatch, hb'] using hmatch

theorem createReply_threads {ctx : SendContext Digest} {conversationId : Uuid}
    {value : MessageV2Input} {parent : ReplyParent} {db db' : Database Digest} {id : Uuid}
    (hparent : ∀ m row, db.messages.get? parent.id = some m →
      db.conversations.get? conversationId = some row → m.conversationId = some conversationId)
    (h : createReply ctx conversationId value parent db = .ok (id, db')) :
    Lawful ctx.rt.toLowerCase (ThreadEvent.IsPlain {value.replyTo.address}) db db' := by
  simp only [createReply, findConversationOrThrow, bind_eq_ok, get_eq_ok, ensure_eq_ok,
    orThrow_eq_ok, pure_eq_ok] at h
  obtain ⟨current, _, ⟨_, _, ⟨rfl, rfl⟩, hcurrent, rfl⟩, _, db₂, h₂, _, _, ⟨-, rfl⟩, _, _,
      ⟨hmatch, rfl⟩,
    r, _, ⟨hbuild, rfl⟩, x, db₃, h₃, _, db₄, h₄, _, db₅, h₅, _, db₆, h₆, _, db₇, h₇, rfl, rfl⟩ := h
  obtain rfl := lockAllowedEmailIdentities_eq_ok h₂
  have hcreated := createOutbound_threads (fun _ => rfl) h₃
  have hclaimed := still_claimAttachmentsForMessage _ _ _ h₄
  have hid := Table.key_of_get? hcurrent
  set base := value.replyTo.address with hbase
  -- the base of the conversation is fixed
  have hpromoted : db₂.threads.Enabled ctx.rt.toLowerCase (.promoted conversationId base) :=
    ⟨current.view, by simp [Database.threads, hcurrent], fits_of_checks hmatch hbuild⟩
  -- the message is stored
  have hrow : (db₂.threads.apply (.promoted conversationId base)).conversations conversationId =
      some { current.view with
        apiVersion := some .v2
        replyToBaseAddress := some base
        replyToRequiresAllowlist := true } := by
    simp [Threads.apply, Threads.onConversation, Database.threads, hcurrent]
  have hstored : (db₂.threads.apply (.promoted conversationId base)).Enabled ctx.rt.toLowerCase
      (.stored x (replyCreateData ctx value current parent r x).threadView) := by
    refine ⟨hcreated.id_eq, hcreated.fresh, hcreated.unused, ?_⟩
    have hc : (replyCreateData ctx value current parent r x).threadView.conversationId =
        some conversationId := congrArg some hid
    rw [hc]
    exact ⟨_,
      { kind := EmailMessage.kind_of_conversationId hcreated.shape (congrArg some hid)
        found := hrow
        parent := by
          intro p hp
          cases hp
          obtain ⟨m, hm⟩ := hcreated.parent parent.id rfl
          exact ⟨m.threadView, EmailMessage.threadView_of_get? hm, hparent m _ hm hcurrent⟩
        inbound := fun hin => by cases hin
        outbound := fun _ => ⟨rfl, base, r, rfl, rfl, hbuild⟩ }⟩
  have hpromote : (threading ctx.rt.toLowerCase).Explains (ThreadEvent.IsPlain {base}) db₂.threads
      db₅.threads := by
    refine .trans (Threads.explains (e := .promoted conversationId base) rfl hpromoted)
      (.trans (Threads.explains (e := .stored x _) trivial hstored) ?_)
    obtain ⟨-, rfl⟩ := updateConversation_eq_ok h₅
    rw [threads_updateConversation (g := fun row => { row with
      apiVersion := some .v2
      replyToBaseAddress := some base
      replyToRequiresAllowlist := true }) fun _ => rfl, hclaimed.threads, hcreated.after]
    refine Threads.explains (P := ThreadEvent.IsPlain {base}) (e := .drawn db₄.nextId) trivial
      ((congrArg Threads.nextId hcreated.after).ge.trans hclaimed.nextId_le)
  have hkeeps : Keeps db₂ db₅ := fun hs => keeps_updateConversation (by exact fun _ => le_rfl) h₅
    (keeps_claimAttachmentsForMessage _ _ _ h₄ (hcreated.keeps hs))
  exact Lawful.trans ⟨hpromote, hkeeps⟩ ((minor_applyAutomaticState _ _ _).isPlain h₆ |>.trans
    ((minor_appendIntentEvents _ _ _ _ _).isPlain h₇))

theorem createDirect_threads {ctx : SendContext Digest} {value : DirectEmailV2Input}
    {B : Set JsString} {db db' : Database Digest} {id : Uuid}
    (h : createDirect ctx value db = .ok (id, db')) :
    Lawful lower (ThreadEvent.IsPlain B) db db' := by
  simp only [createDirect, bind_eq_ok, ensure_eq_ok, pure_eq_ok] at h
  obtain ⟨_, db₁, h₁, _, _, ⟨-, rfl⟩, x, db₂, h₂, _, db₃, h₃, rfl, rfl⟩ := h
  have hlock : db₁ = db := by
    simp only [lockAllowedEmailIdentity, bind_eq_ok, get_eq_ok, pure_eq_ok] at h₁
    obtain ⟨_, _, ⟨rfl, rfl⟩, -, rfl⟩ := h₁
    rfl
  subst hlock
  have hcreated := createOutbound_threads (fun _ => rfl) h₂
  have hstored :
      db₁.threads.Enabled lower (.stored x (directCreateData ctx value x).threadView) := by
    refine ⟨hcreated.id_eq, hcreated.fresh, hcreated.unused, ?_⟩
    refine ⟨?_, rfl, rfl, rfl, rfl⟩
    have hshape := hcreated.shape
    unfold EmailMessage.kindShape at hshape
    split at hshape
    · cases hshape
    next hkind => exact hkind
  exact Lawful.trans ⟨.single (e := .stored _ _) trivial hstored hcreated.after, hcreated.keeps⟩
    ((minor_claimAttachmentsForMessage _ _ _).isPlain h₃)

/-! ### Reopening -/

theorem keeps_appendIntentEvents (ctx : SendContext Digest) (conversationId messageId : Uuid)
    (stateBefore : ConversationState) (stateChanged : Bool) :
    Preserves Keeps (appendIntentEvents ctx conversationId messageId stateBefore stateChanged) :=
  .bind (keeps_appendConversationEvent _ _) fun _ =>
    .ite (.bind (keeps_appendConversationEvent _ _) fun _ => .pure _) (.pure _)

/-- A reopening rewrites the conversation before it stores the message. -/
theorem reopenConversation_threads {ctx : SendContext Digest} {value : CreateConversationV2Input}
    {conversation : EmailConversation} {db db' : Database Digest} {id : Uuid}
    (htoken : ∀ row, db.conversations.get? conversation.id = some row →
      row.routingToken = conversation.routingToken)
    (hreceived : ∀ m ∈ db.messages, m.direction = .inbound → m.state = .received)
    (h : reopenConversation ctx value conversation db = .ok (some id, db')) :
    let reopened := .reopened conversation.id value.participant.email value.message.replyTo.address
    db.threads.Enabled ctx.rt.toLowerCase reopened ∧
      (threading ctx.rt.toLowerCase).Explains (ThreadEvent.IsPlain {value.message.replyTo.address})
        (db.threads.apply reopened) db'.threads ∧ Keeps db db' := by
  simp only [reopenConversation, findConversationOrThrow, bind_eq_ok, get_eq_ok, ensure_eq_ok,
    orThrow_eq_ok] at h
  obtain ⟨current, _, ⟨_, _, ⟨rfl, rfl⟩, hcurrent, rfl⟩, _, db₁, h₁, _, _, ⟨-, rfl⟩, _, _,
    ⟨hmatch, rfl⟩, _, _, ⟨rfl, rfl⟩, h⟩ := h
  obtain rfl := lockAllowedEmailIdentities_eq_ok h₁
  split at h
  · simp [pure_eq_ok] at h
  next hall =>
    simp only [bind_eq_ok, orThrow_eq_ok, pure_eq_ok, Option.some.injEq] at h
    obtain ⟨_, db₂, h₂, r, _, ⟨hbuild, rfl⟩, x, db₃, h₃, _, db₄, h₄, _, db₅, h₅, rfl, rfl⟩ := h
    have hkeeps₂ : Keeps db₁ db₂ := keeps_updateConversation (by exact fun _ => le_rfl) h₂
    obtain ⟨-, heq₂⟩ := updateConversation_eq_ok h₂
    have hcreated := createOutbound_threads (fun _ => rfl) h₃
    set base := value.message.replyTo.address with hbase
    have ht₂ : db₂.threads =
        db₁.threads.apply (.reopened conversation.id value.participant.email base) := by
      rw [heq₂]
      exact threads_updateConversation fun _ => rfl
    have hrow : db₂.threads.conversations conversation.id = some { current.view with
        apiVersion := some .v2
        participantAddress := value.participant.email
        replyToBaseAddress := some base
        replyToRequiresAllowlist := true
        state := .awaitingParticipant } := by
      rw [ht₂]
      simp [Threads.apply, Threads.onConversation, Database.threads, hcurrent]
    rw [← htoken current hcurrent] at hbuild
    have hstored := hcreated.enabled ctx.rt.toLowerCase rfl
      { kind := EmailMessage.kind_of_conversationId hcreated.shape rfl
        found := hrow
        parent := fun p hp => by cases hp
        inbound := fun hin => by cases hin
        outbound := fun _ => ⟨rfl, base, r, rfl, rfl, hbuild⟩ }
    refine ⟨⟨⟨current.view, ?_, fits_of_checks hmatch hbuild⟩, ?_⟩, ?_, ?_⟩
    · simp [Database.threads, hcurrent]
    · -- every message of the conversation failed, and a received one never does
      intro k v hv hvc
      obtain ⟨m, hm, rfl⟩ := Option.map_eq_some_iff.mp hv
      have hmem := Table.mem_of_get? hm
      by_contra hin
      have hinbound : m.direction = .inbound := by
        cases hd : m.direction with
        | inbound => rfl
        | outbound => exact absurd hd hin
      refine hall (List.any_eq_true.mpr ⟨m, hmem, ?_⟩)
      have hvc' : m.conversationId = some conversation.id := hvc
      simp [hvc', hreceived m hmem hinbound]
    · rw [← ht₂]
      have hwoven : Woven ctx.rt.toLowerCase (ThreadEvent.IsPlain {base}) db₂ db₃ :=
        .single (e := .stored _ _) trivial hstored hcreated.after
      exact hwoven.trans (((minor_claimAttachmentsForMessage _ _ _).isPlain h₄).woven.trans
        ((minor_appendIntentEvents _ _ _ _ _).isPlain h₅).woven)
    · exact fun hs => keeps_appendIntentEvents _ _ _ _ _ h₅
        (keeps_claimAttachmentsForMessage _ _ _ h₄ (hcreated.keeps (hkeeps₂ hs)))

end ResendConversation
