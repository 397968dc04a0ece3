import ResendConversation.Conservation

/-! # Isolation of participants

An inbound message is in a conversation with its sender, merges join conversations with one
participant, and the projection of an email writes nothing that belongs to a conversation with
another participant (`Reachable.isolated`). -/

namespace ResendConversation

open Foundation Tx

variable {Digest : Type} {lower : JsString → JsString} {rt : Runtime Digest} {s s' : System Digest}
  {a : Action Digest}

/-! ### Frames -/

/-- Outside the given conversations nothing is written: neither a row nor its messages nor its
routing aliases. -/
structure Within (D : Set Uuid) (db db' : Database Digest) : Prop where
  conversations : ∀ c ∉ D, db'.conversations.get? c = db.conversations.get? c
  messages : ∀ (m : EmailMessage Digest) (c : Uuid), m.conversationId = some c → c ∉ D →
    (m ∈ db'.messages ↔ m ∈ db.messages)
  aliases : ∀ a : EmailConversationRoutingAlias, a.conversationId ∉ D →
    (a ∈ db'.routingAliases ↔ a ∈ db.routingAliases)

section
variable {D : Set Uuid}

instance : Std.Refl (@Within Digest D) where
  refl _ := ⟨fun _ _ => rfl, fun _ _ _ _ => Iff.rfl, fun _ _ => Iff.rfl⟩

instance : IsTrans (Database Digest) (Within D) where
  trans _ _ _ h h' :=
    ⟨fun c hc => (h'.conversations c hc).trans (h.conversations c hc),
      fun m c hm hc => (h'.messages m c hm hc).trans (h.messages m c hm hc),
      fun a ha => (h'.aliases a ha).trans (h.aliases a ha)⟩

theorem Within.trans {a b c : Database Digest} (h : Within D a b) (h' : Within D b c) :
    Within D a c :=
  IsTrans.trans _ _ _ h h'

/-- A statement on other tables. -/
theorem Within.of_eq {db db' : Database Digest} (hc : db'.conversations = db.conversations)
    (hm : db'.messages = db.messages) (ha : db'.routingAliases = db.routingAliases) :
    Within D db db' where
  conversations := fun _ _ => by rw [hc]
  messages := fun _ _ _ _ => by rw [hm]
  aliases := fun _ _ => by rw [ha]

/-- Updated and kept rows, outside the given conversations. -/
theorem mem_update_of_notMem {α κ : Type} [DecidableEq κ] {key : α → κ} {t : Table key}
    {p : α → Bool} {f : α → α} (keep : ∀ r, key (f r) = key r) (P : α → Prop)
    (hf : ∀ r, p r = true → ¬P r ∧ ¬P (f r)) {r : α} (hr : P r) :
    r ∈ t.update p f keep ↔ r ∈ t := by
  rw [Table.mem_update]
  constructor
  · rintro ⟨old, hold, heq⟩
    split at heq
    next hp => exact absurd (heq ▸ hr) (hf old hp).2
    next => exact heq ▸ hold
  · intro hold
    refine ⟨r, hold, if_neg fun hp => ?_⟩
    exact (hf r hp).1 hr

theorem within_freshId : Preserves (Within D) (freshId : Transaction Digest Uuid) := by
  intro db id db' h
  obtain ⟨-, rfl⟩ := freshId_eq_ok.mp h
  exact .of_eq rfl rfl rfl

theorem within_insertRow {α κ : Type} [DecidableEq κ] {key : α → κ}
    {t : Database Digest → Table key} {put : Database Digest → Table key → Database Digest}
    {row : α} (h : ∀ db table, Within D db (put db table)) :
    Preserves (Within D) (insertRow t put row) := by
  intro db u db' hx
  obtain ⟨table, -, rfl⟩ := insertRow_eq_ok.mp hx
  exact h db table

theorem within_updateConversation {id : Uuid} {f : EmailConversation → EmailConversation}
    {keep : ∀ c, (f c).id = c.id} (hid : id ∈ D) :
    Preserves (Within D) (updateConversation id f keep : Transaction Digest _) := by
  intro db r db' h
  obtain ⟨-, rfl⟩ := updateConversation_eq_ok h
  refine ⟨fun c hc => ?_, fun _ _ _ _ => Iff.rfl, fun _ _ => Iff.rfl⟩
  rw [Table.get?_update]
  cases hget : db.conversations.get? c with
  | none => rfl
  | some row =>
      have hne : row.id ≠ id := by
        rw [Table.key_of_get? hget]
        rintro rfl
        exact hc hid
      simp [hne]

theorem within_updateConversations {p : EmailConversation → Bool}
    {f : EmailConversation → EmailConversation} {keep : ∀ c, (f c).id = c.id}
    (hp : ∀ c, p c = true → c.id ∈ D) :
    Preserves (Within D) (updateConversations p f keep : Transaction Digest _) := by
  intro db n db' h
  simp only [updateConversations, modifyGet_eq_ok, Prod.mk.injEq] at h
  obtain ⟨-, rfl⟩ := h
  refine ⟨fun c hc => ?_, fun _ _ _ _ => Iff.rfl, fun _ _ => Iff.rfl⟩
  rw [Table.get?_update]
  cases hget : db.conversations.get? c with
  | none => rfl
  | some row =>
      have hnot : ¬p row = true := fun hrow => hc (Table.key_of_get? hget ▸ hp row hrow)
      simp [hnot]

/-- Messages of the given conversations are rewritten, and stay there. -/
theorem within_updateMessages {p : EmailMessage Digest → Bool}
    {f : EmailMessage Digest → EmailMessage Digest} {keep : ∀ m, (f m).id = m.id}
    (hp : ∀ m, p m = true → ∀ c, m.conversationId = some c → c ∈ D)
    (hf : ∀ m, p m = true → ∀ c, (f m).conversationId = some c → c ∈ D) :
    Preserves (Within D) (updateMessages p f keep) := by
  intro db n db' h
  obtain ⟨-, rfl⟩ := updateMessages_eq_ok.mp h
  refine ⟨fun _ _ => rfl, fun m c hm hc => ?_, fun _ _ => Iff.rfl⟩
  refine mem_update_of_notMem keep (fun m => m.conversationId = some c)
    (fun m hpm => ⟨fun h => ?_, fun h => ?_⟩) hm
  · exact hc (hp m hpm c h)
  · exact hc (hf m hpm c h)

theorem within_appendConversationEvent (config : Config) {input : ConversationEventInput}
    (hid : input.conversationId ∈ D) :
    Preserves (Within D) (appendConversationEvent config input : Transaction Digest _) := by
  refine .ite (.bind (within_updateConversation hid) fun _ => .bind .get fun _ =>
    .bind (.ensure _ _) fun _ => .bind within_freshId fun _ => .bind (within_insertRow ?_) fun _ =>
      .bind (within_insertRow ?_) fun _ => .pure _) (.pure _)
  · exact fun _ _ => .of_eq rfl rfl rfl
  · exact fun _ _ => .of_eq rfl rfl rfl

theorem within_applyAutomaticState {id : Uuid} (hid : id ∈ D) (state : ConversationState)
    (changedAt : Time) :
    Preserves (Within D) (applyAutomaticState id state changedAt : Transaction Digest _) := by
  refine .bind (within_updateConversations fun c hc => ?_) fun _ => .pure _
  simp only [Bool.and_eq_true, beq_iff_eq] at hc
  rw [hc.1.1]
  exact hid

theorem within_refreshLastMessageAt {id : Uuid} (hid : id ∈ D) :
    Preserves (Within D) (refreshLastMessageAt id : Transaction Digest _) := by
  refine .bind .get fun db => ?_
  split
  · exact .pure _
  · exact .bind (within_updateConversation hid) fun _ => .pure _

/-! ### Merges -/

theorem within_createRoutingAlias {target : Uuid} (htarget : target ∈ D)
    (source : EmailConversation) :
    Preserves (Within D) (createRoutingAlias target source : Transaction Digest _) := by
  refine .bind .get fun db => ?_
  split
  · exact .pure _
  · refine .ite (.pure _) (.bind within_freshId fun id => ?_)
    intro db u db' h
    obtain ⟨table, ht, rfl⟩ := insertRow_eq_ok.mp h
    refine ⟨fun _ _ => rfl, fun _ _ _ _ => Iff.rfl, fun a ha => ?_⟩
    rw [Table.mem_insert? ht]
    constructor
    · rintro (hold | rfl)
      · exact hold
      · exact absurd htarget ha
    · exact .inl

theorem within_preserveMergedConversationState {target : EmailConversation}
    {sources : List EmailConversation} (htarget : target.id ∈ D)
    (hsources : ∀ c ∈ sources, c.id ∈ D) :
    Preserves (Within D)
    (preserveMergedConversationState target sources : Transaction Digest _) := by
  unfold preserveMergedConversationState
  split
  · exact .pure _
  · have hmem : ∀ c ∈ unique (sources.filter fun s => s.id != target.id), c.id ∈ D := by
      intro c hc
      rw [mem_unique, List.mem_filter] at hc
      exact hsources c hc.1
    refine .bind (.modify fun db => ?_) fun _ => .bind (.forM fun c _ =>
      within_createRoutingAlias htarget c) fun _ => .bind (within_updateConversation htarget)
        fun _ => .pure _
    refine ⟨fun _ _ => rfl, fun _ _ _ _ => Iff.rfl, fun a ha => ?_⟩
    refine mem_update_of_notMem ?_ (fun b => b.conversationId ∉ D)
      (fun b hb => ⟨?_, not_not.mpr htarget⟩) ha
    · exact fun _ => rfl
    · obtain ⟨c, hc, heq⟩ := List.mem_map.mp (List.contains_iff_mem.mp hb)
      exact not_not.mpr (heq ▸ hmem c hc)

theorem within_moveMessages {target : Uuid} {sources : List Uuid} (htarget : target ∈ D)
    (hsources : ∀ c ∈ sources, c ∈ D) :
    Preserves (Within D) (moveMessages target sources : Transaction Digest _) := by
  refine .bind (within_updateMessages (fun m hm c hc => ?_) fun m hm c hc => ?_) fun _ => .pure _
  · rw [hc, Option.any_some, List.contains_iff_mem] at hm
    exact hsources c hm
  · cases hc
    exact htarget

theorem within_recordConversationMerges (config : Config) {target : Uuid} {sources : List Uuid}
    (occurredAt : Time) (htarget : target ∈ D) (hsources : ∀ c ∈ sources, c ∈ D) :
    Preserves (Within D)
    (recordConversationMerges config target sources occurredAt : Transaction Digest _) :=
  .bind (.forM fun c hc => .bind (within_appendConversationEvent _ (hsources c hc)) fun _ =>
    .pure _) fun _ =>
    .bind (within_appendConversationEvent _ htarget) fun _ => .pure _

/-- Conversations that have no message are deleted alone. -/
theorem within_deleteConversations (now : Time) {ids : List Uuid} {db : Database Digest}
    (he : Emptied ids db) (hids : ∀ c ∈ ids, c ∈ D) :
    Within D db (deleteConversations now ids db) := by
  have hgone : (db.messages.select fun m => m.conversationId.any ids.contains) = [] := by
    rw [Table.select, List.filter_eq_nil_iff]
    intro m hm
    simp [he m hm]
  obtain ⟨n, tombstones, -, heq, -⟩ := deleteAttachments_eq now
    (fun a => a.messageId.any (([] : List Uuid)).contains) db
  refine ⟨fun c hc => ?_, fun m c hm hc => ?_, fun a ha => ?_⟩
  · simp only [deleteConversations, hgone, List.map_nil, heq, Table.get?_delete]
    cases hget : db.conversations.get? c with
    | none => rfl
    | some row =>
        have hnot : c ∉ ids := fun hmem => hc (hids c hmem)
        simp [Table.key_of_get? hget, hnot]
  · have hnone : ∀ m : EmailMessage Digest,
        m.parentMessageId.any (([] : List Uuid)).contains = false := by
      intro m
      cases m.parentMessageId <;> rfl
    simp only [deleteConversations, hgone, List.map_nil, heq, Table.mem_update,
      Table.mem_delete, hnone, Bool.false_eq_true, if_false]
    constructor
    · rintro ⟨r, ⟨hr, -⟩, rfl⟩
      exact hr
    · intro hr
      exact ⟨m, ⟨hr, he m hr⟩, rfl⟩
  · have hnot : a.conversationId ∉ ids := fun hmem => ha (hids _ hmem)
    simp only [deleteConversations, hgone, List.map_nil, heq, Table.mem_delete]
    simp [hnot]

theorem within_mergeUnassigned {config : Config} {now occurredAt : Time}
    {target : EmailConversation} {related : List (ThreadedMessage Digest)}
    {db db' : Database Digest} {u : Unit} (hstored : db.Holds related) (htarget : target.id ∈ D)
    (hrelated : ∀ t ∈ related, t.conversation.id ∈ D)
    (h : mergeUnassigned config now target related occurredAt db = .ok (u, db')) :
    Within D db db' := by
  have hsources : ∀ c ∈ unassignedConversations target.id related, c ∈ D := by
    intro c hc
    simp only [unassignedConversations, mem_unique, List.mem_map, List.mem_filter] at hc
    obtain ⟨t, ⟨ht, -⟩, rfl⟩ := hc
    exact hrelated t ht
  have hrows : ∀ c ∈ (related.map ThreadedMessage.conversation).filter fun c =>
      (unassignedConversations target.id related).contains c.id, c.id ∈ D := by
    intro c hc
    obtain ⟨t, ht, rfl⟩ := List.mem_map.mp (List.mem_filter.mp hc).1
    exact hrelated t ht
  unfold mergeUnassigned at h
  split at h
  · obtain ⟨-, rfl⟩ := pure_eq_ok.mp h
    exact Std.Refl.refl db
  · simp only [absorbConversations, bind_eq_ok, modify_eq_ok, pure_eq_ok] at h
    obtain ⟨_, db₁, h₁, _, db₂, h₂, _, db₃, h₃, _, _, ⟨-, rfl⟩, rfl⟩ := h
    have hv : Vacant (unassignedConversations target.id related) db₁ :=
      (keepsVacant_preserveMergedConversationState _ _ h₁).vacant (vacant_unassigned hstored)
    have he := (moveMessages_passive hv target_notMem_unassigned h₂).2
    have hdeleted := within_deleteConversations now
      ((keepsVacant_recordConversationMerges _ _ _ _ h₃).emptied he) hsources
    exact (within_preserveMergedConversationState htarget hrows h₁).trans
      ((within_moveMessages htarget hsources h₂).trans
        ((within_recordConversationMerges _ _ htarget hsources h₃).trans hdeleted))

/-! ### Projections -/

/-- A new conversation is begun under the next identifier. -/
theorem within_newInboundConversation {email : ResendEmail} {inbound : InboundEmail} {now : Time}
    {db db' : Database Digest} {c : EmailConversation} (hD : db.nextId ∈ D)
    (h : newInboundConversation email inbound now db = .ok (c, db')) :
    c.id = db.nextId ∧ Within D db db' := by
  simp only [newInboundConversation, bind_eq_ok, freshId_eq_ok, pure_eq_ok] at h
  obtain ⟨_, _, ⟨rfl, rfl⟩, _, _, ⟨rfl, rfl⟩, _, _, hc, rfl, rfl⟩ := h
  obtain ⟨table, ht, rfl⟩ := createConversation_eq_ok hc
  refine ⟨rfl, fun d hd => ?_, fun _ _ _ _ => Iff.rfl, fun _ _ => Iff.rfl⟩
  rw [Table.get?_of_insert? ht]
  refine if_neg ?_
  rintro rfl
  exact hd hD

theorem within_createMessage {row : Uuid → EmailMessage Digest}
    (hrow : ∀ id c, (row id).conversationId = some c → c ∈ D) :
    Preserves (Within D) (createMessage row) := by
  intro db m db' h
  obtain ⟨-, hcreated⟩ := createMessage_eq_ok h
  obtain ⟨table, ht, rfl⟩ := hcreated.table
  refine ⟨fun _ _ => rfl, fun m c hm hc => ?_, fun _ _ => Iff.rfl⟩
  rw [Table.mem_insert? ht]
  constructor
  · rintro (hold | rfl)
    · exact hold
    · exact absurd (hrow _ c hm) hc
  · exact .inl

theorem within_projectInboundAttachments (toLowerCase : JsString → JsString) (config : Config)
    (now : Time) (messageId : Uuid) (resendEmailId : JsString)
    (attachments : List ResendReceivedAttachment) :
    Preserves (Within D)
    (projectInboundAttachments toLowerCase config now messageId resendEmailId attachments :
      Transaction Digest _) := by
  refine .ite ?_ (.pure _)
  generalize (attachments.filter fun a => !a.id.isEmpty).take config.maxCount = as
  induction as with
  | nil => exact .pure _
  | cons a as ih =>
      have hone : Preserves (Within D) (projectInboundAttachment toLowerCase config now messageId
          resendEmailId a : Transaction Digest _) := by
        refine .bind .get fun _ =>
          .ite (.pure _) (.bind within_freshId fun _ => .bind within_freshId fun _ =>
          .bind ?_ fun _ => .pure _)
        intro db u db' h
        obtain ⟨-, table, -, rfl⟩ := createAttachment_eq_ok h
        exact .of_eq rfl rfl rfl
      exact .bind hone fun _ => .bind ih fun _ => .pure _

theorem within_adoptReplies {p : EmailMessage Digest → Bool} (parent : Uuid)
    (hp : ∀ m, p m = true → ∀ c, m.conversationId = some c → c ∈ D) :
    Preserves (Within D) (adoptReplies parent p) :=
  .bind (within_updateMessages hp hp) fun _ => .pure _

theorem within_finishProjection {config : Config} {inbound : InboundEmail}
    {conversation : EmailConversation} (hid : conversation.id ∈ D) (created : Bool)
    (messageId : Uuid) (attachmentCount : ℕ) :
    Preserves (Within D)
    (finishProjection config inbound conversation created messageId attachmentCount :
      Transaction Digest _) := by
  have hevent : ∀ input : ConversationEventInput, input.conversationId = conversation.id →
      Preserves (Within D) (appendConversationEvent config input : Transaction Digest _) :=
    fun input heq => within_appendConversationEvent config (heq ▸ hid)
  have htail : ∀ input : ConversationEventInput, input.conversationId = conversation.id →
      Preserves (Within D) (finishTail config inbound conversation created messageId input :
        Transaction Digest _) := by
    intro input heq
    refine .bind (hevent input heq) fun _ =>
      .bind (within_adoptReplies messageId fun m hm c hc => ?_) fun _ =>
      .bind (within_refreshLastMessageAt hid) fun _ =>
        .bind (within_applyAutomaticState hid _ _) fun _ =>
        .ite (.bind ?_ fun _ => .pure _) (.pure _)
    · simp only [isWaiting, Bool.and_eq_true, beq_iff_eq] at hm
      cases hc.symm.trans hm.2
      exact hid
    · exact hevent _ rfl
  obtain ⟨createdEvent, receivedEvent, hcreated, hreceived, heq⟩ :=
    finishProjection_events config inbound conversation created messageId attachmentCount
  rw [heq]
  exact .ite (.bind (hevent _ hcreated) fun _ => htail _ hreceived) (htail _ hreceived)

theorem within_projectInto {config : Config} {now : Time} {event : EmailEventData}
    {email : ResendEmail} {related : RelatedMessages Digest} {conversation : EmailConversation}
    {created : Bool} {db db' : Database Digest} {m : EmailMessage Digest}
    (hid : conversation.id ∈ D) (hstored : db.Holds (related.eligible ++ related.waitingChildren))
    (hrelated : ∀ t ∈ related.eligible ++ related.waitingChildren, t.conversation.id ∈ D)
    (h : projectInto rt config now event email related conversation created db = .ok (m, db')) :
    Within D db db' := by
  simp only [projectInto, bind_eq_ok, pure_eq_ok] at h
  obtain ⟨_, db₁, h₁, message, db₂, h₂, count, db₃, h₃, _, db₄, h₄, -, rfl⟩ := h
  have hrow : ∀ id c, (inboundMessage event email (parseInboundEmail rt event email) now id
      conversation.id (related.parent.map fun t => t.message.id) :
        EmailMessage Digest).conversationId = some c → c ∈ D := by
    intro id c hc
    cases hc
    exact hid
  exact (within_mergeUnassigned hstored hid hrelated h₁).trans ((within_createMessage hrow h₂).trans
    ((within_projectInboundAttachments _ _ _ _ _ _ h₃).trans
      (within_finishProjection hid _ _ _ h₄)))

end

/-- The conversations with the participant, and those to come. -/
def Database.ofParticipant (lower : JsString → JsString) (db : Database Digest)
    (participant : JsString) :
    Set Uuid :=
  {id | ∀ c, db.conversations.get? id = some c → lower c.participantAddress = participant}

/-- The projection of an email writes only to the conversations with its sender. -/
theorem within_projectInboundEmail {config : Config} {scan : Scan (EmailMessage Digest)}
    {now : Time} {event : EmailEventData} {email : ResendEmail} {base : JsString}
    {db db' : Database Digest} {m : EmailMessage Digest} (hs : db.Sound)
    (h : projectInboundEmail rt config scan now event email base db = .ok (m, db')) :
    Within (db.ofParticipant rt.toLowerCase (parseInboundEmail rt event email).participantAddress)
      db db' := by
  obtain ⟨_, _, hget, h⟩ := bind_eq_ok.mp h
  obtain ⟨rfl, rfl⟩ := get_eq_ok.mp hget
  dsimp only at h
  set inbound := parseInboundEmail rt event email with hinbound
  set related := findRelatedMessages rt db scan inbound with hrelated
  have hof : ∀ c : EmailConversation, db.conversations.get? c.id = some c →
      rt.toLowerCase c.participantAddress = inbound.participantAddress →
      c.id ∈ db.ofParticipant rt.toLowerCase inbound.participantAddress := by
    intro c hc hparticipant c' hc'
    cases hc.symm.trans hc'
    exact hparticipant
  have hids : ∀ t ∈ related.eligible ++ related.waitingChildren,
      t.conversation.id ∈ db.ofParticipant rt.toLowerCase inbound.participantAddress := by
    intro t ht
    obtain ⟨-, -, hstored, hparticipant⟩ := related_stored ht
    exact hof t.conversation hstored hparticipant
  cases hexisting : (scan.order (db.messages.select fun m =>
      m.kind == .conversation && carriesIdentity event inbound m)).head? with
  | some existing =>
    rw [hexisting] at h
    obtain ⟨-, rfl⟩ := pure_eq_ok.mp h
    exact Std.Refl.refl db
  | none =>
    rw [hexisting] at h
    dsimp only at h
    cases hchosen : chooseConversation rt db inbound related base with
    | some conversation =>
      rw [hchosen] at h
      obtain ⟨hstored, hparticipant, -⟩ := chooseConversation_stored hchosen
      exact within_projectInto (hof conversation hstored hparticipant)
        (fun t ht => (related_stored ht).2.2.1) hids h
    | none =>
      rw [hchosen] at h
      obtain ⟨conversation, db₁, h₁, h⟩ := bind_eq_ok.mp h
      obtain ⟨-, -, -, hkeep, -⟩ := newInboundConversation_threads rt.toLowerCase h₁
      -- the identifier of the new conversation is not in use
      have hnew : db.nextId ∈ db.ofParticipant rt.toLowerCase inbound.participantAddress := by
        intro c hc
        have hlt := hs.conversationId_lt c (Table.mem_of_get? hc)
        exact absurd (Table.key_of_get? hc) hlt.ne
      obtain ⟨hid, hwithin⟩ := within_newInboundConversation hnew h₁
      exact hwithin.trans
        (within_projectInto (hid ▸ hnew) (fun t ht => hkeep _ _ (related_stored ht).2.2.1) hids h)

/-! ### Moves -/

/-- A message that changes its conversation goes to one with the same participant. -/
def MovesWithin (lower : JsString → JsString) (db db' : Database Digest) : Prop :=
  ∀ m ∈ db.messages, ∀ c, m.conversationId = some c → ∀ m' ∈ db'.messages, m'.id = m.id →
    m'.conversationId = some c ∨ ∃ source target, db.conversations.get? c = some source ∧
      target ∈ db'.conversations ∧ m'.conversationId = some target.id ∧
      lower target.participantAddress = lower source.participantAddress

/-- A row and its successor have one participant. -/
def SameParticipant (lower : JsString → JsString) (_ : Bool) (row row' : ConversationView) : Prop :=
  lower row'.participantAddress = lower row.participantAddress

instance : Succession (SameParticipant lower) where
  refl _ := rfl
  comp h h' := h'.trans h

theorem Threads.respects_sameParticipant {t : Threads} {e : ThreadEvent} (he : t.Enabled lower e)
    (hmail : e.IsMail) : t.Respects (SameParticipant lower) e := by
  cases e with
  | merged target sources =>
      refine ⟨stays_merged fun row _ => rfl,
        absorbed_merged he fun row hrow c hc source hsource => ?_⟩
      obtain ⟨-, -, row', hrow', hsources⟩ := he
      obtain rfl : row' = row := Option.some.inj (hrow'.symm.trans hrow)
      obtain ⟨source', hsource', -, hparticipant⟩ := hsources c hc
      obtain rfl : source' = source := Option.some.inj (hsource'.symm.trans hsource)
      exact hparticipant.symm
  | begun c row => exact .of_stays nofun (stays_begun he)
  | promoted c base => exact .of_stays nofun (stays_onConversation fun _ _ => rfl)
  | turned c state => exact .of_stays nofun (stays_onConversation fun _ _ => rfl)
  | drawn n => exact .of_stays nofun (stays_of_eq rfl)
  | stored id v => exact .of_stays nofun (stays_of_eq rfl)
  | identified id mid => exact .of_stays nofun (stays_of_eq rfl)
  | adopted p children => exact .of_stays nofun (stays_of_eq rfl)
  | reopened c participant base => exact hmail.elim
  | assigned c topic => exact hmail.elim
  | overridden c state => exact hmail.elim
  | deleted c => exact hmail.elim

/-- The messages that stay are in the conversations that they were in. -/
structure Threads.Unmoved (t t' : Threads) : Prop where
  nextId_le : t.nextId ≤ t'.nextId
  messages : ∀ k v', k < t.nextId → t'.messages k = some v' →
    ∃ v, t.messages k = some v ∧ v'.conversationId = v.conversationId

instance : Std.Refl Threads.Unmoved where
  refl _ := ⟨le_rfl, fun _ v' _ h => ⟨v', h, rfl⟩⟩

instance : IsTrans Threads Threads.Unmoved where
  trans t t' t'' h h' := by
    refine ⟨h.nextId_le.trans h'.nextId_le, fun k v'' hk hv'' => ?_⟩
    obtain ⟨v', hv', hsame'⟩ := h'.messages k v'' (hk.trans_le h.nextId_le) hv''
    obtain ⟨v, hv, hsame⟩ := h.messages k v' hk hv'
    exact ⟨v, hv, hsame'.trans hsame⟩

theorem Threads.unmoved_apply {t : Threads} {e : ThreadEvent} (he : t.Enabled lower e)
    (hmerged : ∀ target sources, e ≠ .merged target sources) : t.Unmoved (t.apply e) := by
  refine ⟨(later_apply he).nextId_le, fun k v' hk hv' => ?_⟩
  cases e with
  | stored id v =>
      obtain ⟨rfl, -⟩ := he
      simp only [Threads.apply, Function.update_of_ne hk.ne] at hv'
      exact ⟨v', hv', rfl⟩
  | identified id mid =>
      simp only [Threads.apply, onMessage] at hv'
      split at hv'
      · obtain ⟨v, hv, rfl⟩ := Option.map_eq_some_iff.mp hv'
        exact ⟨v, hv, rfl⟩
      · exact ⟨v', hv', rfl⟩
  | adopted p children =>
      obtain ⟨v, hv, rfl⟩ := Option.map_eq_some_iff.mp hv'
      exact ⟨v, hv, by split <;> rfl⟩
  | deleted c =>
      simp only [Threads.apply] at hv'
      split at hv'
      · cases hv'
      · obtain ⟨v, hv, rfl⟩ := Option.map_eq_some_iff.mp hv'
        exact ⟨v, hv, rfl⟩
  | merged target sources => exact absurd rfl (hmerged target sources)
  | drawn n => exact ⟨v', hv', rfl⟩
  | begun c row => exact ⟨v', hv', rfl⟩
  | promoted c base => exact ⟨v', hv', rfl⟩
  | reopened c participant base => exact ⟨v', hv', rfl⟩
  | assigned c topic => exact ⟨v', hv', rfl⟩
  | turned c state => exact ⟨v', hv', rfl⟩
  | overridden c state => exact ⟨v', hv', rfl⟩

theorem Threads.unmoved_of_explains {t t' : Threads} {P : ThreadEvent → Prop}
    (h : (threading lower).Explains P t t') (hP : ∀ target sources, ¬P (.merged target sources)) :
    t.Unmoved t' := by
  refine (h.relates (I := fun _ => True) (R := Threads.Unmoved) trivial
    fun t e he _ henabled => ?_).2
  refine ⟨trivial, unmoved_apply henabled ?_⟩
  rintro target sources rfl
  exact hP target sources he

theorem Threads.Unmoved.movesWithin {db db' : Database Digest} (hs : db.Sound)
    (h : db.threads.Unmoved db'.threads) : MovesWithin lower db db' := by
  intro m hm c hc m' hm' hid
  obtain ⟨v, hv, hsame⟩ := h.messages m'.id m'.threadView (hid ▸ hs.messageId_lt m hm)
    (EmailMessage.threadView_of_get? (Table.mem_iff_get?.mp hm'))
  rw [hid, EmailMessage.threadView_of_get? (Table.mem_iff_get?.mp hm)] at hv
  cases hv
  exact .inl (hsame.trans hc)

theorem Threads.Inherits.movesWithin {db db' : Database Digest} (hs : db.Sound)
    (h : db.threads.Inherits (SameParticipant lower) db'.threads) : MovesWithin lower db db' := by
  intro m hm c hc m' hm' hid
  obtain ⟨source, hsource⟩ := Option.isSome_iff_exists.mp (hs.placed m hm c hc)
  have hlt : c < db.nextId :=
    Table.key_of_get? hsource ▸ hs.conversationId_lt source (Table.mem_of_get? hsource)
  obtain ⟨d, row', hheir⟩ := h.heir c source.view hlt (by simp [Database.threads, hsource])
  obtain ⟨v', hv', hd⟩ := hheir.messages m.id m.threadView
    (EmailMessage.threadView_of_get? (Table.mem_iff_get?.mp hm)) hc
  rw [← hid, EmailMessage.threadView_of_get? (Table.mem_iff_get?.mp hm')] at hv'
  cases hv'
  obtain ⟨target, htarget, rfl⟩ := Option.map_eq_some_iff.mp hheir.found
  refine .inr ⟨source, target, hsource, Table.mem_of_get? htarget, ?_, hheir.succeeds⟩
  rw [Table.key_of_get? htarget]
  exact hd

theorem Threading.movesWithin (h : Threading rt s a s') (hs : s.db.Sound) :
    MovesWithin rt.toLowerCase s.db s'.db := by
  have hmail : ∀ {t t' : Threads}, t.Drawn →
      (threading rt.toLowerCase).Explains ThreadEvent.IsMail t t' →
      t.Inherits (SameParticipant rt.toLowerCase) t' := by
    intro t t' hdrawn h
    refine Threads.inherits_of_explains (I := fun _ => True) h hdrawn trivial
      fun t e he _ henabled => ?_
    refine ⟨trivial, ?_, Threads.respects_sameParticipant henabled he⟩
    rintro d rfl
    exact he
  cases h with
  | plain events => exact (Threads.unmoved_of_explains events.woven fun _ _ h => h).movesWithin hs
  | projected pid c h email m action runs phase commits projection =>
      exact (hmail hs.drawn (woven_projectInboundEmail _ _ _ _ _ _ _ projection)).movesWithin hs
  | recorded pid c p id mid createdAt m action runs records retrieved recording =>
      obtain ⟨_, _, _, hrecorded⟩ := recordOutboundInternetMessageId_threads recording
      exact (hmail hs.drawn hrecorded.explained).movesWithin hs
  | reopened pid c h conversation participant base action runs phase enabled requested events =>
      have hreopened : s.db.threads.Unmoved s'.db.threads := IsTrans.trans _ _ _
        (Threads.unmoved_apply enabled nofun) (Threads.unmoved_of_explains events fun _ _ h => h)
      exact hreopened.movesWithin hs
  | assigned id topic title action events =>
      exact (Threads.unmoved_of_explains events.woven fun _ _ h => h).movesWithin hs
  | overridden id state action events =>
      exact (Threads.unmoved_of_explains events.woven fun _ _ h => h).movesWithin hs
  | deleted id action events =>
      exact (Threads.unmoved_of_explains events.woven fun _ _ h => h).movesWithin hs

/-- In every reachable state an inbound message is in a conversation with its sender, every step
moves messages between conversations of one participant only, and the projection of an email
writes nothing outside the conversations with its sender. -/
theorem Reachable.isolated [DecidableEq Digest] (h : Reachable rt s) :
    (∀ m ∈ s.db.messages, m.direction = .inbound → ∃ c ∈ s.db.conversations,
      m.conversationId = some c.id ∧
        rt.toLowerCase c.participantAddress = rt.toLowerCase m.fromAddress) ∧
    (∀ a s', step rt s a = some s' → MovesWithin rt.toLowerCase s.db s'.db) ∧
    ∀ config scan now event email base m db',
      projectInboundEmail rt config scan now event email base s.db = .ok (m, db') →
        Within (s.db.ofParticipant rt.toLowerCase
          (parseInboundEmail rt event email).participantAddress)
          s.db db' := by
  have hs := h.threaded.sound
  have hproper := h.proper
  refine ⟨fun m hm hin => ?_, fun a s' hstep => ?_, fun config scan now event email base m db' hx =>
    within_projectInboundEmail hs hx⟩
  · have hview := EmailMessage.threadView_of_get? (Table.mem_iff_get?.mp hm)
    obtain ⟨c, hc⟩ := Option.isSome_iff_exists.mp (hproper.homed m.id _ hview hin)
    obtain ⟨row, hrow⟩ := Option.isSome_iff_exists.mp (hproper.placed m.id _ c hview hc)
    obtain ⟨conversation, hget, rfl⟩ := Option.map_eq_some_iff.mp hrow
    refine ⟨conversation, Table.mem_of_get? hget, ?_, hproper.sender m.id _ c _ hview hin hc hrow⟩
    rw [Table.key_of_get? hget]
    exact hc
  · obtain ⟨hthreading, -⟩ := h.threaded.step hstep
    exact hthreading.movesWithin hs

namespace Reference

/-- An email of one participant, and one of another that claims to answer it, before its
projection. -/
def forgedReply : List (Action SendRequest) :=
  receive 0 (js "1") (js "1") (mail (js "<a>") none) ++
    (receive 1 (js "2") (js "2")
      { mail (js "<b>") (some (js "<a>")) with «from» := js "z@q.co" }).dropLast

end Reference

/-- An email that claims to answer another participant's is stored apart from it. -/
theorem isolated_reference :
    ∃ s s', Reachable .reference s ∧ step .reference s (.run 1 {}) = some s' ∧
    ((s'.db.messages.get? 3).map EmailMessage.conversationId = some (some 1)) ∧
    ((s'.db.messages.get? 7).map EmailMessage.conversationId = some (some 5)) ∧
    (∀ m ∈ s'.db.messages, m.direction = .inbound →
      ∃ c ∈ s'.db.conversations, m.conversationId = some c.id ∧
        Runtime.reference.toLowerCase c.participantAddress =
          Runtime.reference.toLowerCase m.fromAddress) ∧
    MovesWithin Runtime.reference.toLowerCase s.db s'.db := by
  obtain ⟨s, s', hs, hstep, hfirst, hsecond⟩ : ∃ s s', Run (step .reference) Always .reference s ∧
      step .reference s (.run 1 {}) = some s' ∧
      ((s'.db.messages.get? 3).map EmailMessage.conversationId = some (some 1)) ∧
      ((s'.db.messages.get? 7).map EmailMessage.conversationId = some (some 5)) :=
    Run.exists_of_exec_step Reference.forgedReply (.run 1 {}) (by decide +kernel)
  have hnext : Reachable .reference s' := .of_run (hs.tail trivial hstep)
  exact ⟨s, s', .of_run hs, hstep, hfirst, hsecond, hnext.isolated.1,
    (Reachable.of_run hs).isolated.2.1 _ _ hstep⟩

end ResendConversation
