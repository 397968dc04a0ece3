import ResendConversation.StorableTexts
import ResendConversation.Tokens

/-! # Transactions that commit

When the statements and the transactions of threading cannot throw.  A sound database with
proper threads lets every merge, every event and every state change commit; the insertion of
a message only fails on the provider identifier or the Message-ID of another message, and on a
text that no column takes. -/

namespace ResendConversation

open Foundation Tx

variable {Digest : Type} {lower : JsString → JsString}

/-! ### Statements -/

theorem commits_freshId (db : Database Digest) : Commits freshId db := .modifyGet _ _

theorem commits_insertRow {α κ : Type} [DecidableEq κ] {key : α → κ}
    {t : Database Digest → Table key} {put : Database Digest → Table key → Database Digest}
    {row : α} {db : Database Digest} (h : ∀ r ∈ t db, key r ≠ key row) :
    Commits (insertRow t put row) db := by
  obtain ⟨table, ht⟩ := (Table.insert?_eq_some_iff (r := row)).mpr (Table.get?_eq_none.mpr h)
  exact ⟨(), put db table, insertRow_eq_ok.mpr ⟨table, ht, rfl⟩⟩

theorem commits_updateMessages (p : EmailMessage Digest → Bool)
    (f : EmailMessage Digest → EmailMessage Digest) (keep : ∀ m, (f m).id = m.id)
    (db : Database Digest) : Commits (updateMessages p f keep) db :=
  .modifyGet _ _

theorem commits_updateConversations (p : EmailConversation → Bool)
    (f : EmailConversation → EmailConversation) (keep : ∀ c, (f c).id = c.id)
    (db : Database Digest) :
    Commits (updateConversations p f keep) db := .modifyGet _ _

/-- A conversation keeps its identity through an update. -/
theorem commits_updateConversation {id : Uuid} {f : EmailConversation → EmailConversation}
    {keep : ∀ c, (f c).id = c.id} {db : Database Digest} (hs : db.Sound) {c : EmailConversation}
    (hc : db.conversations.get? id = some c) (htoken : (f c).routingToken = c.routingToken)
    (htype : (f c).topicType = c.topicType) (htopic : (f c).externalTopicId = c.externalTopicId)
    (hallow : (f c).replyToRequiresAllowlist = true → (f c).replyToBaseAddress.isSome) :
    Commits (updateConversation id f keep) db := by
  have hmem := Table.mem_of_get? hc
  have hother : ∀ d ∈ db.conversations.rows.filter (fun d => d.id != (f c).id),
      d ∈ db.conversations ∧ d ≠ c := by
    intro d hd
    rw [List.mem_filter, keep] at hd
    refine ⟨hd.1, fun heq => ?_⟩
    simp [heq] at hd
  refine .bind (.bind (.get _) fun r db₁ h => ?_) fun c' db₁ h => ?_
  · obtain ⟨rfl, rfl⟩ := get_eq_ok.mp h
    exact .orThrow (by rw [hc]; rfl) _ _
  · obtain ⟨_, _, hget, hthrow⟩ := bind_eq_ok.mp h
    obtain ⟨rfl, rfl⟩ := get_eq_ok.mp hget
    obtain ⟨hc', rfl⟩ := orThrow_eq_ok.mp hthrow
    obtain rfl : c = c' := Option.some.inj (hc.symm.trans hc')
    refine .bind (.bind (.get _) fun r db₂ h => ?_) fun _ db₂ h =>
      .bind (.modify _ _) fun _ _ _ => .pure _ _
    obtain ⟨rfl, rfl⟩ := get_eq_ok.mp h
    refine .bind (.ensure ?_ _ _) fun _ db₃ h => .bind (.ensure ?_ _ _) fun _ db₄ h =>
      .ensure ?_ _ _
    · rw [Bool.not_eq_true', List.any_eq_false]
      intro d hd hsame
      obtain ⟨hd, hne⟩ := hother d hd
      exact hne (hs.token d hd c hmem ((beq_iff_eq.mp hsame).trans htoken))
    · rw [Bool.not_eq_true', List.any_eq_false]
      intro d hd hsame
      obtain ⟨hd, hne⟩ := hother d hd
      simp only [Bool.and_eq_true, beq_iff_eq] at hsame
      obtain ⟨⟨⟨hsome, hsome'⟩, ht⟩, he⟩ := hsame
      exact hne (hs.topic d hd c hmem hsome hsome' (ht.trans htype) (he.trans htopic))
    · cases hreq : (f c).replyToRequiresAllowlist with
      | false => rfl
      | true => simpa using hallow hreq

/-- The allowlist flag of a stored row. -/
theorem Database.Sound.allow {db : Database Digest} (hs : db.Sound) {id : Uuid}
    {c : EmailConversation} (hc : db.conversations.get? id = some c) :
    c.replyToRequiresAllowlist = true → c.replyToBaseAddress.isSome :=
  hs.allowlist c (Table.mem_of_get? hc)

theorem commits_appendConversationEvent {config : Config} {input : ConversationEventInput}
    {db : Database Digest} (hs : db.Sound)
    (hc : (db.conversations.get? input.conversationId).isSome) :
    Commits (appendConversationEvent config input) db := by
  obtain ⟨c, hc⟩ := Option.isSome_iff_exists.mp hc
  refine .ite (fun _ => ?_) fun _ => .pure _ _
  have hallow := hs.allow hc
  refine .bind (commits_updateConversation hs hc rfl rfl rfl (by exact hallow)) fun c' db₁ h₁ => ?_
  have hs₁ : db₁.Sound := keeps_updateConversation (by exact fun _ => Nat.le_succ _) h₁ hs
  obtain ⟨⟨c₀, hc₀, rfl⟩, rfl⟩ := updateConversation_eq_ok h₁
  obtain rfl : c = c₀ := Option.some.inj (hc.symm.trans hc₀)
  refine .bind (.get _) fun _ _ h => ?_
  obtain ⟨rfl, rfl⟩ := get_eq_ok.mp h
  refine .bind (.ensure ?_ _ _) fun _ _ h => ?_
  · -- the events of the conversation end before the new number
    rw [Bool.not_eq_true', List.any_eq_false]
    intro e he hsame
    simp only [Bool.and_eq_true, beq_iff_eq] at hsame
    have hle := (hs.logged e he).2 c (Table.mem_of_get? hc) hsame.1.symm
    rw [hsame.2] at hle
    exact absurd hle (Nat.not_succ_le_self _)
  · obtain ⟨-, rfl⟩ := ensure_eq_ok.mp h
    refine .bind (commits_freshId _) fun id db₂ h₂ => ?_
    obtain ⟨rfl, rfl⟩ := freshId_eq_ok.mp h₂
    refine .bind (commits_insertRow fun e he => (hs.eventId_lt e he).ne) fun _ db₃ h₃ => ?_
    obtain ⟨table, -, rfl⟩ := insertRow_eq_ok.mp h₃
    exact .bind (commits_insertRow fun d hd => (hs.deliveryId_lt d hd).ne) fun _ _ _ => .pure _ _

/-! ### Merges -/

theorem Still.found {db db' : Database Digest} (h : Still db db') {c : Uuid}
    (hc : (db.conversations.get? c).isSome) : (db'.conversations.get? c).isSome := by
  have hsame := congrFun (congrArg Threads.conversations h.threads) c
  simp only [Database.threads] at hsame
  rw [← Option.isSome_map, hsame, Option.isSome_map]
  exact hc

theorem commits_createRoutingAlias {target : Uuid} {source : EmailConversation}
    {db : Database Digest} (hs : db.Sound) : Commits (createRoutingAlias target source) db := by
  refine .bind (.get _) fun _ _ h => ?_
  obtain ⟨rfl, rfl⟩ := get_eq_ok.mp h
  split
  · exact .pure _ _
  · refine .ite (fun _ => .pure _ _) fun _ => .bind (commits_freshId _) fun id db₁ h₁ => ?_
    obtain ⟨rfl, rfl⟩ := freshId_eq_ok.mp h₁
    exact commits_insertRow fun a ha => (hs.aliasId_lt a ha).ne

theorem conversations_createRoutingAlias {target : Uuid} {source : EmailConversation}
    {db db' : Database Digest} {u : Unit} (h : createRoutingAlias target source db = .ok (u, db')) :
    db'.conversations = db.conversations := by
  obtain ⟨_, _, hget, h⟩ := bind_eq_ok.mp h
  obtain ⟨rfl, rfl⟩ := get_eq_ok.mp hget
  cases hbase : source.replyToBaseAddress with
  | none =>
    rw [hbase] at h
    obtain ⟨-, rfl⟩ := pure_eq_ok.mp h
    rfl
  | some base =>
    rw [hbase] at h
    dsimp only at h
    split at h
    · obtain ⟨-, rfl⟩ := pure_eq_ok.mp h
      rfl
    · obtain ⟨_, _, h₁, h⟩ := bind_eq_ok.mp h
      obtain ⟨rfl, rfl⟩ := freshId_eq_ok.mp h₁
      obtain ⟨table, -, rfl⟩ := insertRow_eq_ok.mp h
      rfl

/-- The update of the survivor passes its check: it only requires the allowlist with a base. -/
theorem commits_preserveMergedConversationState {target : EmailConversation}
    {rows : List EmailConversation} {db : Database Digest} (hs : db.Sound)
    (htarget : db.conversations.get? target.id = some target) (hbased : target.view.Based)
    (hrows : ∀ c ∈ unique (rows.filter fun s => s.id != target.id), c.view.Based ∧
      c.topicType = none) :
    Commits (preserveMergedConversationState target rows) db := by
  unfold preserveMergedConversationState
  cases hlist : unique (rows.filter fun s => s.id != target.id) with
  | nil => exact .pure _ _
  | cons c cs =>
      rw [hlist] at hrows
      dsimp only
      refine .bind (.modify _ _) fun _ db₁ h₁ => ?_
      have hs₁ : db₁.Sound := keeps_moveAliases _ _ h₁ hs
      have hsame₁ : db₁.conversations = db.conversations := by rw [← modify_eq_ok.mp h₁]
      set I := fun db' : Database Digest => db'.Sound ∧ db'.conversations = db.conversations
      have hround : ∀ d ∈ c :: cs, ∀ db', I db' → Commits (createRoutingAlias target.id d) db' ∧
          ∀ u db'', createRoutingAlias target.id d db' = .ok (u, db'') → I db'' := fun d _ db' hI =>
        ⟨commits_createRoutingAlias hI.1, fun u db'' h => ⟨keeps_createRoutingAlias _ _ h hI.1,
          (conversations_createRoutingAlias h).trans hI.2⟩⟩
      obtain ⟨hloop, hafter⟩ := Commits.forM (I := I) ⟨hs₁, hsame₁⟩ hround
      refine .bind hloop fun _ db₂ h₂ => ?_
      have hI₂ := hafter _ db₂ h₂
      have hfound : db₂.conversations.get? target.id = some target := by rw [hI₂.2, htarget]
      refine .bind (commits_updateConversation hI₂.1 hfound rfl rfl rfl fun hallow => ?_)
        fun _ _ _ => .pure _ _
      have hsources : ∀ v ∈ (c :: cs).map EmailConversation.view, v.Based ∧ v.topicType = none := by
        intro v hv
        obtain ⟨d, hd, rfl⟩ := List.mem_map.mp hv
        exact hrows d hd
      have hmerged := hbased.merge hsources
      rw [← view_mergedConversation] at hmerged
      exact hmerged.allowlist hallow

theorem commits_recordConversationMerges {config : Config} {target : Uuid} {sources : List Uuid}
    {occurredAt : Time} {db : Database Digest} (hs : db.Sound)
    (htarget : (db.conversations.get? target).isSome)
    (hsources : ∀ c ∈ sources, (db.conversations.get? c).isSome) :
    Commits (recordConversationMerges config target sources occurredAt) db := by
  set I := fun db' : Database Digest => db'.Sound ∧ (db'.conversations.get? target).isSome ∧
    ∀ c ∈ sources, (db'.conversations.get? c).isSome
  have hkeep : ∀ input {db' db'' : Database Digest} {r}, appendConversationEvent config input db' =
      .ok (r, db'') → I db' → I db'' := fun input db' db'' r h hI =>
    have hstill := still_appendConversationEvent _ _ h
    ⟨keeps_appendConversationEvent _ _ h hI.1, hstill.found hI.2.1,
      fun c hc => hstill.found (hI.2.2 c hc)⟩
  have hround : ∀ c ∈ sources, ∀ db', I db' →
      Commits (do
        let _ ← appendConversationEvent config
          { conversationId := c
            type := .merged
            occurredAt
            actor := .system
            cause := js "thread_reconciliation"
            mergedIntoConversationId := some target }
        pure ()) db' ∧ ∀ u db'', (do
        let _ ← appendConversationEvent config
          { conversationId := c
            type := .merged
            occurredAt
            actor := .system
            cause := js "thread_reconciliation"
            mergedIntoConversationId := some target }
        pure ()) db' = .ok (u, db'') → I db'' := by
    intro c hc db' hI
    refine ⟨.bind (commits_appendConversationEvent hI.1 (hI.2.2 c hc)) fun _ _ _ => .pure _ _,
      fun u db'' h => ?_⟩
    obtain ⟨_, _, h₁, h₂⟩ := bind_eq_ok.mp h
    obtain ⟨-, rfl⟩ := pure_eq_ok.mp h₂
    exact hkeep _ h₁ hI
  obtain ⟨hloop, hafter⟩ := Commits.forM (I := I) ⟨hs, htarget, hsources⟩ hround
  refine .bind hloop fun _ db₁ h₁ => ?_
  have hI₁ := hafter _ db₁ h₁
  exact .bind (commits_appendConversationEvent hI₁.1 hI₁.2.1) fun _ _ _ => .pure _ _

theorem commits_moveMessages (target : Uuid) (sources : List Uuid) (db : Database Digest) :
    Commits (moveMessages target sources) db :=
  .bind (commits_updateMessages _ _ _ _) fun _ _ _ => .pure _ _

theorem commits_adoptReplies (parent : Uuid) (p : EmailMessage Digest → Bool)
    (db : Database Digest) :
    Commits (adoptReplies parent p) db :=
  .bind (commits_updateMessages _ _ _ _) fun _ _ _ => .pure _ _

theorem commits_refreshLastMessageAt {id : Uuid} {db : Database Digest} (hs : db.Sound)
    (hc : (db.conversations.get? id).isSome) : Commits (refreshLastMessageAt id) db := by
  obtain ⟨c, hc⟩ := Option.isSome_iff_exists.mp hc
  refine .bind (.get _) fun _ _ h => ?_
  obtain ⟨rfl, rfl⟩ := get_eq_ok.mp h
  have hallow := hs.allow hc
  split
  · exact .pure _ _
  · exact .bind (commits_updateConversation hs hc rfl rfl rfl (by exact hallow)) fun _ _ _ =>
      .pure _ _

/-- What a merge of stored conversations without a topic needs. -/
structure Mergeable (db : Database Digest) (target : EmailConversation)
    (related : List (ThreadedMessage Digest)) : Prop where
  sound : db.Sound
  holds : db.Holds related
  found : db.conversations.get? target.id = some target
  based : ∀ c row, db.threads.conversations c = some row → row.Based

theorem Mergeable.target_based {db : Database Digest} {target : EmailConversation}
    {related : List (ThreadedMessage Digest)} (h : Mergeable db target related) :
    target.view.Based :=
  h.based target.id _ (by simp [Database.threads, h.found])

theorem Mergeable.source_based {db : Database Digest} {target : EmailConversation}
    {related : List (ThreadedMessage Digest)} (h : Mergeable db target related)
    {c : EmailConversation} (hc : c ∈ sourceRows target.id related) :
    c.view.Based ∧ c.topicType = none ∧ db.conversations.get? c.id = some c := by
  have hid : c.id ∈ unassignedConversations target.id related := by
    rw [← sourceRows_ids h.holds]
    exact List.mem_map_of_mem hc
  obtain ⟨t, ht, hsame, -, htopic⟩ := mem_unassignedConversations.mp hid
  have hstored : db.conversations.get? c.id = some c := by
    have hmem := mem_unique.mp hc
    simp only [List.mem_filter, List.mem_map] at hmem
    obtain ⟨⟨⟨u, hu, rfl⟩, -⟩, -⟩ := hmem
    exact h.holds u hu
  have hget := h.holds t ht
  rw [hsame, hstored] at hget
  obtain rfl := Option.some.inj hget
  exact ⟨h.based t.conversation.id _ (by simp [Database.threads, hstored]), htopic, hstored⟩

/-- The merge up to the statement that adopts replies. -/
theorem commits_merge {config : Config} {now occurredAt : Time} {target : EmailConversation}
    {related : List (ThreadedMessage Digest)} {db : Database Digest}
    (h : Mergeable db target related) {adopt : Transaction Digest Unit}
    (hadopt : ∀ db, Commits adopt db) :
    Commits (do
      preserveMergedConversationState target
        ((related.map ThreadedMessage.conversation).filter fun c =>
        (unassignedConversations target.id related).contains c.id)
      absorbConversations config now target.id (unassignedConversations target.id related)
        occurredAt adopt)
      db := by
  refine .bind (commits_preserveMergedConversationState h.sound h.found h.target_based
    fun c hc => ⟨(h.source_based hc).1, (h.source_based hc).2.1⟩) fun _ db₁ h₁ => ?_
  have hs₁ := keeps_preserveMergedConversationState _ _ h₁ h.sound
  have hfound₁ := preserve_found (by rw [h.found]; rfl) h₁
  refine .bind (commits_moveMessages _ _ _) fun _ db₂ h₂ => ?_
  have hs₂ := keeps_moveMessages hfound₁ h₂ hs₁
  have hsame₂ : db₂.conversations = db₁.conversations := by
    simp only [moveMessages, bind_eq_ok, updateMessages_eq_ok, pure_eq_ok] at h₂
    obtain ⟨_, _, ⟨-, rfl⟩, -, rfl⟩ := h₂
    rfl
  refine .bind (commits_recordConversationMerges hs₂ (by rw [hsame₂]; exact hfound₁) fun c hc => ?_)
    fun _ db₃ h₃ => .bind (hadopt _) fun _ _ _ => .modify _ _
  rw [hsame₂]
  obtain ⟨t, ht, rfl, -, -⟩ := mem_unassignedConversations.mp hc
  exact preserve_found (by rw [h.holds t ht]; rfl) h₁

/-! ### New rows -/

theorem messages_projectInboundAttachment {toLowerCase : JsString → JsString} {config : Config}
    {now : Time} {messageId : Uuid} {resendEmailId : JsString}
    {attachment : ResendReceivedAttachment} {db db' : Database Digest} {created : Bool}
    (h : projectInboundAttachment toLowerCase config now messageId resendEmailId attachment db =
      .ok (created, db')) : db'.messages = db.messages := by
  obtain ⟨_, _, hget, h⟩ := bind_eq_ok.mp h
  obtain ⟨rfl, rfl⟩ := get_eq_ok.mp hget
  split at h
  · obtain ⟨-, rfl⟩ := pure_eq_ok.mp h
    rfl
  · simp only [bind_eq_ok, freshId_eq_ok, pure_eq_ok] at h
    obtain ⟨_, _, ⟨rfl, rfl⟩, _, _, ⟨rfl, rfl⟩, _, _, hc, -, rfl⟩ := h
    obtain ⟨-, table, -, rfl⟩ := createAttachment_eq_ok hc
    rfl

/-- Of the metadata of the attachments only a text can be refused. -/
theorem fails_projectInboundAttachments {E : TxError → Prop} {toLowerCase : JsString → JsString}
    {config : Config} {now : Time} {messageId : Uuid} {event : EmailEventData} {email : ResendEmail}
    {db : Database Digest} (hs : db.Sound) (hm : (db.messages.get? messageId).isSome)
    (hE : ¬StorableEmail event email → E .invalidText) :
    Fails E (projectInboundAttachments toLowerCase config now messageId event.emailId
      (email.attachments.getD [])) db := by
  have hone : ∀ a ∈ email.attachments.getD [], ∀ db : Database Digest, db.Sound →
      (db.messages.get? messageId).isSome →
      Fails E (projectInboundAttachment toLowerCase config now messageId event.emailId a) db := by
    intro a ha db hs hm
    refine .bind (.of_commits (.get _)) fun _ _ h => ?_
    obtain ⟨rfl, rfl⟩ := get_eq_ok.mp h
    refine .ite (fun _ => .of_commits (.pure _ _)) fun _ =>
      .bind (.of_commits (commits_freshId _)) fun id db₁ h₁ => ?_
    obtain ⟨rfl, rfl⟩ := freshId_eq_ok.mp h₁
    refine .bind (.of_commits (commits_freshId _)) fun key db₂ h₂ => ?_
    obtain ⟨rfl, rfl⟩ := freshId_eq_ok.mp h₂
    refine .bind (.bind (.ensure fun htexts => hE fun hstorable => ?_) fun _ _ h => ?_)
      fun _ _ _ => .of_commits (.pure _ _)
    · exact Bool.false_ne_true (htexts.symm.trans
        (storable_attachment hstorable ha rfl rfl rfl rfl rfl rfl))
    obtain ⟨-, rfl⟩ := ensure_eq_ok.mp h
    refine .of_commits (.bind (.get _) fun _ _ h => ?_)
    obtain ⟨rfl, rfl⟩ := get_eq_ok.mp h
    refine .bind (.ensure ?_ _ _) fun _ _ h => ?_
    · -- the storage key is new
      rw [Bool.not_eq_true', List.any_eq_false]
      intro b hb hsame
      have hlt := (hs.attachmentId_lt b hb).2
      rw [eq_of_beq hsame] at hlt
      exact absurd hlt (Nat.not_lt.mpr (Nat.le_succ _))
    · obtain ⟨-, rfl⟩ := ensure_eq_ok.mp h
      refine .bind (.ensure hm _ _) fun _ _ h => ?_
      obtain ⟨-, rfl⟩ := ensure_eq_ok.mp h
      exact commits_insertRow fun b hb => (hs.attachmentId_lt b hb).1.ne
  unfold projectInboundAttachments
  refine .ite (fun _ => ?_) fun _ => .of_commits (.pure _ _)
  · have hmem :
        ∀ a ∈ ((email.attachments.getD []).filter fun a => !a.id.isEmpty).take config.maxCount,
        a ∈ email.attachments.getD [] := fun a ha =>
          (List.mem_filter.mp (List.mem_of_mem_take ha)).1
    generalize
      ((email.attachments.getD []).filter fun a => !a.id.isEmpty).take config.maxCount = as at hmem
    induction as generalizing db with
    | nil => exact .of_commits (.pure _ _)
    | cons a as ih =>
        refine .bind (hone a (hmem a List.mem_cons_self) db hs hm) fun created db₁ h₁ =>
          .bind (ih ?_ ?_ fun b hb => hmem b (List.mem_cons_of_mem a hb)) fun _ _ _ =>
            .of_commits (.pure _ _)
        · exact keeps_projectInboundAttachment _ _ _ _ _ _ h₁ hs
        · rw [messages_projectInboundAttachment h₁]
          exact hm

/-! ### Outbound Message-IDs -/

theorem Database.conversation_isSome {db : Database Digest} {c : Uuid} :
    (db.threads.conversations c).isSome = (db.conversations.get? c).isSome := by
  simp [Database.threads]

/-- The check of a message that learns a Message-ID fails on the row that carries it. -/
theorem fails_identify {E : TxError → Prop} {m : EmailMessage Digest} {mid : JsString}
    {createdAt : Time} {db : Database Digest} (hs : db.Sound) (hm : m ∈ db.messages)
    (hkind : m.kind = .conversation)
    (hE : (∃ n ∈ db.messages, n.id ≠ m.id ∧ n.internetMessageId = some mid) → E .uniqueViolation) :
    Fails E (checkMessage
      { m with internetMessageId := some mid, emailCreatedAt := createdAt }) db := by
  have hfree : ∀ {β : Type} [DecidableEq β] {column : EmailMessage Digest → Option β},
      db.Distinct column → (!db.takenBy m.id column (column m)) = true := by
    intro β _ column hdistinct
    refine not_takenBy.mpr fun n hn hne hsome heq => ?_
    exact hne (congrArg EmailMessage.id (hdistinct n hn m hm (heq ▸ hsome) heq))
  have hplaced : (m.conversationId.all fun c => (db.conversations.get? c).isSome) = true := by
    cases hc : m.conversationId with
    | none => rfl
    | some c => exact hs.placed m hm c hc
  have hparent : (m.parentMessageId.all fun p => (db.messages.get? p).isSome) = true := by
    cases hp : m.parentMessageId with
    | none => rfl
    | some p => exact hs.parent m hm p hp
  have hshape : EmailMessage.kindShape
      { m with internetMessageId := some mid, emailCreatedAt := createdAt } = true := by
    have h := hs.shape m hm
    simp only [EmailMessage.kindShape, hkind] at h ⊢
    exact h
  refine .bind (.of_commits (.get _)) fun _ _ h => ?_
  obtain ⟨rfl, rfl⟩ := get_eq_ok.mp h
  refine .bind (.of_commits (.ensure (hfree hs.resendEmailId) _ _)) fun _ _ h => ?_
  obtain ⟨-, rfl⟩ := ensure_eq_ok.mp h
  refine .bind (.ensure fun htaken => hE ?_) fun _ _ h => ?_
  · simp only [Database.takenBy, Option.isSome_some, Bool.true_and, Bool.not_eq_false',
      List.any_eq_true, Bool.and_eq_true, bne_iff_ne, beq_iff_eq] at htaken
    obtain ⟨n, hn, hne, hsame⟩ := htaken
    exact ⟨n, hn, hne, hsame⟩
  · obtain ⟨-, rfl⟩ := ensure_eq_ok.mp h
    refine .of_commits (.bind (.ensure (hfree hs.idempotencyKey) _ _) fun _ _ h => ?_)
    obtain ⟨-, rfl⟩ := ensure_eq_ok.mp h
    refine .bind (.ensure hplaced _ _) fun _ _ h => ?_
    obtain ⟨-, rfl⟩ := ensure_eq_ok.mp h
    refine .bind (.ensure hparent _ _) fun _ _ h => ?_
    obtain ⟨-, rfl⟩ := ensure_eq_ok.mp h
    exact .ensure hshape _ _

/-- The message is stored, as an outbound one of a conversation. -/
def Database.Recordable (db : Database Digest) (id : Uuid) : Prop :=
  ∃ m c row, db.messages.get? id = some m ∧ m.direction = .outbound ∧ m.kind = .conversation ∧
    m.conversationId = some c ∧ db.conversations.get? c = some row

/-- What a recording of a Message-ID throws: the message is gone or not an outbound one of a
conversation, or another message carries the Message-ID. -/
def RecordingError (db : Database Digest) (id : Uuid) (mid : JsString) (e : TxError) : Prop :=
  (e = .notFound ∨ ∃ text, e = .error text) ∧ ¬db.Recordable id ∨
    e = .uniqueViolation ∧ db.Recordable id ∧ ∃ m ∈ db.messages, m.id ≠ id ∧
      m.internetMessageId = some mid

theorem recordOutboundInternetMessageId_fails {rt : Runtime Digest} {config : Config}
    {scan : Scan (EmailMessage Digest)} {now emailCreatedAt : Time} {id : Uuid} {mid : JsString}
    {db : Database Digest} (hs : db.Sound)
    (hbased : ∀ c row, db.threads.conversations c = some row → row.Based) :
    Fails (RecordingError db id mid)
      (recordOutboundInternetMessageId rt config scan now id mid emailCreatedAt) db := by
  refine .bind (.of_commits (.get _)) fun _ _ h => ?_
  obtain ⟨rfl, rfl⟩ := get_eq_ok.mp h
  refine .bind (.orThrow fun hnone => .inl ⟨.inl rfl, ?_⟩) fun outbound _ h => ?_
  · rintro ⟨m, _, _, hm, -⟩
    rw [hnone] at hm
    cases hm
  obtain ⟨hfound, rfl⟩ := orThrow_eq_ok.mp h
  refine .bind (.ensure fun hinvalid => .inl ⟨.inr ⟨_, rfl⟩, ?_⟩) fun _ _ h => ?_
  · rintro ⟨m, _, _, hm, hdirection, hkind, -⟩
    rw [hfound] at hm
    cases hm
    rw [hdirection, hkind] at hinvalid
    cases hinvalid
  obtain ⟨hvalid, rfl⟩ := ensure_eq_ok.mp h
  refine .bind (.orThrow fun hnone => .inl ⟨.inr ⟨_, rfl⟩, ?_⟩) fun c _ h => ?_
  · rintro ⟨m, _, _, hm, -, -, hc, -⟩
    rw [hfound] at hm
    cases hm
    rw [hnone] at hc
    cases hc
  obtain ⟨hc, rfl⟩ := orThrow_eq_ok.mp h
  refine .bind (.orThrow fun hnone => .inl ⟨.inr ⟨_, rfl⟩, ?_⟩) fun row _ h => ?_
  · rintro ⟨m, _, _, hm, -, -, hmc, hrow⟩
    rw [hfound] at hm
    cases hm
    rw [hc] at hmc
    cases hmc
    rw [hnone] at hrow
    cases hrow
  obtain ⟨hrow, rfl⟩ := orThrow_eq_ok.mp h
  simp only [Bool.and_eq_true, beq_iff_eq] at hvalid
  have hid := Table.key_of_get? hfound
  have hrowid := Table.key_of_get? hrow
  refine .bind ?_ fun updated db₁ h₁ => .of_commits ?_
  · -- the one statement that can fail
    refine .bind (.of_commits (.get _)) fun _ _ h => ?_
    obtain ⟨rfl, rfl⟩ := get_eq_ok.mp h
    refine .bind (.of_commits (.orThrow (by rw [hid, hfound]; rfl) _ _)) fun m _ h => ?_
    obtain ⟨hm, rfl⟩ := orThrow_eq_ok.mp h
    rw [hid, hfound] at hm
    cases hm
    refine .bind (fails_identify hs (Table.mem_of_get? hfound) hvalid.2 fun htaken => ?_)
      fun _ _ _ => .of_commits (.bind (.modify _ _) fun _ _ _ => .pure _ _)
    exact .inr ⟨rfl, ⟨outbound, c, row, hfound, hvalid.1, hvalid.2, hc, hrow⟩, hid ▸ htaken⟩
  · have hs₁ : db₁.Sound := keeps_updateMessage h₁ hs
    obtain ⟨-, -, -, -, heq₁⟩ := updateMessage_eq_ok.mp h₁
    have hsame₁ : db₁.conversations = db.conversations := by rw [heq₁]
    have hrow₁ : db₁.conversations.get? c = some row := by rw [hsame₁, hrow]
    have hbased₁ : ∀ c row, db₁.threads.conversations c = some row → row.Based := by
      intro d view hview
      refine hbased d view ?_
      simpa only [Database.threads, hsame₁] using hview
    have hparent₁ : (db₁.messages.get? outbound.id).isSome := by
      obtain ⟨m, hm, -, -, heq⟩ := updateMessage_eq_ok.mp h₁
      rw [heq]
      simp [Table.get?_update, hm]
    refine .bind (.get _) fun _ _ h => ?_
    obtain ⟨rfl, rfl⟩ := get_eq_ok.mp h
    dsimp only
    have hholds :
        db₁.Holds (waitingReplies rt db₁ scan (rt.toLowerCase row.participantAddress) mid) :=
      fun t ht => conversation_of_mem_eligibleFor ht
    subst hrowid
    split
    · refine .bind (commits_adoptReplies _ _ _) fun _ db₂ h₂ =>
        .bind (commits_refreshLastMessageAt ?_ ?_) fun _ _ _ => .pure _ _
      · exact keeps_adoptReplies hparent₁ (fun m => conversationId_of_isAdopted) h₂ hs₁
      · rw [← Database.conversation_isSome, adoptReplies_threads h₂]
        simp [Threads.apply, Database.threads, hrow₁]
    next hempty =>
      have hmerge : Commits (do
          preserveMergedConversationState row
            (((waitingReplies rt db₁ scan (rt.toLowerCase row.participantAddress) mid).map
              ThreadedMessage.conversation).filter fun c => (unassignedConversations row.id
                (waitingReplies rt db₁ scan (rt.toLowerCase row.participantAddress)
                  mid)).contains c.id)
          absorbConversations config now row.id (unassignedConversations row.id
            (waitingReplies rt db₁ scan (rt.toLowerCase row.participantAddress) mid)) now
            (adoptReplies outbound.id (isAdopted row.id
              (waitingReplies rt db₁ scan (rt.toLowerCase row.participantAddress) mid)))) db₁ :=
        commits_merge ⟨hs₁, hholds, hrow₁, hbased₁⟩ (commits_adoptReplies _ _)
      refine .bind₂ hmerge fun _ db₂ h₂ _ db₃ h₃ => .bind (commits_refreshLastMessageAt ?_ ?_)
        fun _ _ _ => .pure _ _
      · exact keeps_absorbWaiting (by rw [hrow₁]; rfl) hparent₁ h₂ h₃ hs₁
      · obtain ⟨_, -, -, ht₃⟩ := absorbWaiting_threads hholds hrow₁ (unassigned_ne_nil hempty) h₂ h₃
        have hview : db₁.threads.conversations row.id = some row.view := by
          simp [Database.threads, hrow₁]
        obtain ⟨row', hrow', -⟩ := Threads.absorb_target hview
          (@target_notMem_unassigned _ row.id
            (waitingReplies rt db₁ scan (rt.toLowerCase row.participantAddress) mid))
        rw [← Database.conversation_isSome, ht₃]
        change ((Threads.absorb _ _ _).conversations row.id).isSome
        rw [hrow']
        rfl

/-! ### Projections -/

theorem applyAutomaticState_found {id : Uuid} {state : ConversationState} {changedAt : Time}
    {db db' : Database Digest} {changed : Bool}
    (h : applyAutomaticState id state changedAt db = .ok (changed, db')) {c : Uuid}
    (hc : (db.conversations.get? c).isSome) : (db'.conversations.get? c).isSome := by
  simp only [applyAutomaticState, updateConversations, bind_eq_ok, modifyGet_eq_ok, pure_eq_ok,
    Prod.mk.injEq] at h
  obtain ⟨_, _, ⟨-, rfl⟩, -, rfl⟩ := h
  simpa [Table.get?_update] using hc

theorem commits_applyAutomaticState (id : Uuid) (state : ConversationState) (changedAt : Time)
    (db : Database Digest) : Commits (applyAutomaticState id state changedAt) db :=
  .bind (commits_updateConversations _ _ _ _) fun _ _ _ => .pure _ _

theorem commits_finishTail {config : Config} {inbound : InboundEmail}
    {conversation : EmailConversation} {created : Bool} {x : Uuid} {event : ConversationEventInput}
    {db : Database Digest} (hs : db.Sound) (hc : (db.conversations.get? conversation.id).isSome)
    (hevent : event.conversationId = conversation.id) (hx : (db.messages.get? x).isSome) :
    Commits (finishTail config inbound conversation created x event) db := by
  refine .bind (commits_appendConversationEvent hs (by rw [hevent]; exact hc)) fun _ db₁ h₁ => ?_
  have hs₁ := keeps_appendConversationEvent _ _ h₁ hs
  have hstill₁ := still_appendConversationEvent _ _ h₁
  have hx₁ : (db₁.messages.get? x).isSome := by
    have hview : (db₁.threads.messages x).isSome := by
      rw [hstill₁.messages]
      simpa [Database.threads] using hx
    simpa [Database.threads] using hview
  refine .bind (commits_adoptReplies _ _ _) fun _ db₂ h₂ => ?_
  have hs₂ := keeps_adoptReplies hx₁ (fun m hm => by
    simp only [isWaiting, Bool.and_eq_true, beq_iff_eq] at hm
    simp [hm.2]) h₂ hs₁
  have hc₂ : (db₂.conversations.get? conversation.id).isSome := by
    rw [← Database.conversation_isSome, adoptReplies_threads h₂]
    exact Database.conversation_isSome.trans (hstill₁.found hc)
  refine .bind (commits_refreshLastMessageAt hs₂ hc₂) fun _ db₃ h₃ => ?_
  have hs₃ := keeps_refreshLastMessageAt _ h₃ hs₂
  have hc₃ := (still_refreshLastMessageAt _ h₃).found hc₂
  refine .bind (commits_applyAutomaticState _ _ _ _) fun changed db₄ h₄ =>
    .ite (fun _ => ?_) fun _ => .pure _ _
  exact .bind (commits_appendConversationEvent (keeps_applyAutomaticState _ _ _ h₄ hs₃)
    (applyAutomaticState_found h₄ hc₃)) fun _ _ _ => .pure _ _

/-- The events of a projection are about its conversation. -/
theorem finishProjection_events (config : Config) (inbound : InboundEmail)
    (conversation : EmailConversation) (created : Bool) (messageId : Uuid) (count : ℕ) :
    ∃ createdEvent receivedEvent : ConversationEventInput, createdEvent.conversationId =
      conversation.id ∧ receivedEvent.conversationId = conversation.id ∧
      (finishProjection config inbound conversation created messageId count :
        Transaction Digest Unit) = if created then do
          let _ ← appendConversationEvent config createdEvent
          finishTail config inbound conversation created messageId receivedEvent
        else finishTail config inbound conversation created messageId receivedEvent :=
  ⟨_, _, rfl, rfl, rfl⟩

theorem commits_finishProjection {config : Config} {inbound : InboundEmail}
    {conversation : EmailConversation} {created : Bool} {x : Uuid} {count : ℕ}
    {db : Database Digest} (hs : db.Sound) (hc : (db.conversations.get? conversation.id).isSome)
    (hx : (db.messages.get? x).isSome) :
    Commits (finishProjection config inbound conversation created x count) db := by
  obtain ⟨createdEvent, receivedEvent, hcreated, hreceived, heq⟩ :=
    @finishProjection_events Digest config inbound conversation created x count
  rw [heq]
  refine .ite (fun _ => ?_) fun _ => commits_finishTail hs hc hreceived hx
  refine .bind (commits_appendConversationEvent hs (by rw [hcreated]; exact hc)) fun _ db₁ h₁ => ?_
  have hstill₁ := still_appendConversationEvent _ _ h₁
  refine commits_finishTail (keeps_appendConversationEvent _ _ h₁ hs) (hstill₁.found hc)
    hreceived ?_
  have hview : (db₁.threads.messages x).isSome := by
    rw [hstill₁.messages]
    simpa [Database.threads] using hx
  simpa [Database.threads] using hview

/-- A merge keeps the provider identifier and the Message-ID of every message. -/
theorem mergeUnassigned_recalls {config : Config} {now occurredAt : Time}
    {target : EmailConversation} {related : List (ThreadedMessage Digest)}
    {db db' : Database Digest} {u : Unit} (hstored : db.Holds related)
    (htarget : db.conversations.get? target.id = some target)
    (h : mergeUnassigned config now target related occurredAt db = .ok (u, db')) :
    ∀ m' ∈ db'.messages, ∃ m ∈ db.messages, m.id = m'.id ∧ m.kind = m'.kind ∧
      m.resendEmailId = m'.resendEmailId ∧ m.internetMessageId = m'.internetMessageId := by
  intro m' hm'
  have hget' := Table.mem_iff_get?.mp hm'
  have hview' : db'.threads.messages m'.id = some m'.threadView :=
    EmailMessage.threadView_of_get? hget'
  rw [(mergeUnassigned_threads hstored htarget h).2] at hview'
  obtain ⟨v, hv, hmove⟩ :=
    Option.map_eq_some_iff.mp ((Threads.absorb_messages _ _ _ _).symm.trans hview')
  obtain ⟨m, hget, rfl⟩ := Option.map_eq_some_iff.mp hv
  have hsend := (mergeUnassigned_passive (vacant_unassigned hstored) h).view m'.id
    _ (Database.view?_of_get? hget)
  rw [Database.view?_of_get? hget', Option.some.injEq] at hsend
  have hmid : (m.threadView.move target.id
      (unassignedConversations target.id related)).internetMessageId = m.internetMessageId := by
    unfold ThreadView.move
    split <;> rfl
  exact ⟨m, Table.mem_of_get? hget, Table.key_of_get? hget, congrArg SendView.kind hsend.symm,
    congrArg SendView.resendEmailId hsend.symm,
    hmid.symm.trans (congrArg ThreadView.internetMessageId hmove)⟩

/-- What a projection throws: a text that no column takes, the identifier of a message that is not
of a conversation, or a generated token that is taken. -/
def ProjectionError (rt : Runtime Digest) (db : Database Digest) (event : EmailEventData)
    (email : ResendEmail) (e : TxError) : Prop :=
  e = .invalidText ∧ ¬StorableEmail event email ∨
    e = .uniqueViolation ∧ (16 ^ 32 ≤ db.nextId + 1 ∨
      ∃ m ∈ db.messages, carriesIdentity event (parseInboundEmail rt event email) m = true)

/-- The insertion of an email fails on its texts and on a message that carries its identifiers. -/
theorem fails_createInbound {E : TxError → Prop} {row : Uuid → EmailMessage Digest}
    {db : Database Digest} (hid : (row db.nextId).id = db.nextId) (hs : db.Sound)
    (hkey : (row db.nextId).idempotencyKey = none)
    (hconversation : ∀ c, (row db.nextId).conversationId = some c →
      (db.conversations.get? c).isSome)
    (hparent : ∀ p, (row db.nextId).parentMessageId = some p → (db.messages.get? p).isSome)
    (hshape : (row db.nextId).kindShape = true)
    (htexts : (row db.nextId).texts.all JsString.storable = false → E .invalidText)
    (hE : ∀ m ∈ db.messages,
      (m.resendEmailId = (row db.nextId).resendEmailId ∧ m.resendEmailId.isSome) ∨
      (m.internetMessageId = (row db.nextId).internetMessageId ∧ m.internetMessageId.isSome) →
        E .uniqueViolation) : Fails E (createMessage row) db := by
  have htaken : ∀ {column : EmailMessage Digest → Option JsString},
      (!db.takenBy (row db.nextId).id column (column (row db.nextId))) = false →
        ∃ m ∈ db.messages, column m = column (row db.nextId) ∧ (column m).isSome := by
    intro column htaken
    simp only [Database.takenBy, Bool.not_eq_false', Bool.and_eq_true, List.any_eq_true, bne_iff_ne,
      beq_iff_eq] at htaken
    obtain ⟨hsome, m, hm, -, hsame⟩ := htaken
    exact ⟨m, hm, hsame, by rwa [hsame]⟩
  refine .bind (.of_commits (commits_freshId _)) fun id db₁ h₁ => ?_
  obtain ⟨rfl, rfl⟩ := freshId_eq_ok.mp h₁
  refine .bind (.ensure htexts) fun _ _ h => ?_
  obtain ⟨-, rfl⟩ := ensure_eq_ok.mp h
  refine .bind ?_ fun _ db₂ h₂ => ?_
  · refine .bind (.of_commits (.get _)) fun _ _ h => ?_
    obtain ⟨rfl, rfl⟩ := get_eq_ok.mp h
    refine .bind (.ensure fun hprovider => ?_) fun _ _ h => ?_
    · obtain ⟨m, hm, hsame⟩ := htaken hprovider
      exact hE m hm (.inl hsame)
    obtain ⟨-, rfl⟩ := ensure_eq_ok.mp h
    refine .bind (.ensure fun hmid => ?_) fun _ _ h => ?_
    · obtain ⟨m, hm, hsame⟩ := htaken hmid
      exact hE m hm (.inr hsame)
    obtain ⟨-, rfl⟩ := ensure_eq_ok.mp h
    refine .of_commits (.bind (.ensure (by simp [Database.takenBy, hkey]) _ _) fun _ _ h => ?_)
    obtain ⟨-, rfl⟩ := ensure_eq_ok.mp h
    refine .bind (.ensure ?_ _ _) fun _ _ h => ?_
    · cases hc : (row db.nextId).conversationId with
      | none => rfl
      | some c => exact hconversation c hc
    obtain ⟨-, rfl⟩ := ensure_eq_ok.mp h
    refine .bind (.ensure ?_ _ _) fun _ _ h => ?_
    · cases hp : (row db.nextId).parentMessageId with
      | none => rfl
      | some p => exact hparent p hp
    obtain ⟨-, rfl⟩ := ensure_eq_ok.mp h
    exact .ensure hshape _ _
  · obtain rfl := (checkMessage_eq_ok.mp h₂).2.2.2.2.2.2
    refine .of_commits (.bind (commits_insertRow fun n hn => ?_) fun _ _ _ => .pure _ _)
    rw [hid]
    exact (hs.messageId_lt n hn).ne

/-- The writes of a projection throw only for a text of the email, or for a message that carries
the email. -/
theorem projectInto_fails {rt : Runtime Digest} {config : Config} {now : Time}
    {event : EmailEventData} {email : ResendEmail} {related : RelatedMessages Digest}
    {conversation : EmailConversation} {created : Bool} {db : Database Digest} {E : TxError → Prop}
    (hmerge : Mergeable db conversation (related.eligible ++ related.waitingChildren))
    (hparent : ∀ t, related.parent = some t → t.message ∈ db.messages)
    (htexts : ¬StorableEmail event email → E .invalidText)
    (hE : ∀ m ∈ db.messages, carriesIdentity event (parseInboundEmail rt event email) m = true →
      E .uniqueViolation) :
    Fails E (projectInto rt config now event email related conversation created) db := by
  have hmerged : Commits (mergeUnassigned config now conversation
      (related.eligible ++ related.waitingChildren)
        (parseInboundEmail rt event email).emailCreatedAt) db := by
    unfold mergeUnassigned
    exact .ite (fun _ => .pure _ _) fun _ => commits_merge hmerge (.pure _)
  refine .bind (.of_commits hmerged) fun _ db₁ h₁ => ?_
  have hs₁ := mergeUnassigned_keeps hmerge.found h₁ hmerge.sound
  obtain ⟨-, ht₁⟩ := mergeUnassigned_threads hmerge.holds hmerge.found h₁
  have hc₁ : (db₁.conversations.get? conversation.id).isSome := by
    have hview : db.threads.conversations conversation.id = some conversation.view := by
      simp [Database.threads, hmerge.found]
    obtain ⟨row', hrow', -⟩ := Threads.absorb_target hview
      (@target_notMem_unassigned _ conversation.id (related.eligible ++ related.waitingChildren))
    rw [← Database.conversation_isSome, ht₁]
    change ((Threads.absorb _ _ _).conversations conversation.id).isSome
    rw [hrow']
    rfl
  have hp₁ : ∀ p, related.parent.map (fun t => t.message.id) = some p →
      (db₁.messages.get? p).isSome := by
    intro p hp
    obtain ⟨t, ht, rfl⟩ := Option.map_eq_some_iff.mp hp
    have hview : (db₁.threads.messages t.message.id).isSome := by
      rw [ht₁]
      change ((Threads.absorb _ _ _).messages t.message.id).isSome
      rw [Threads.absorb_messages, Option.isSome_map,
        EmailMessage.threadView_of_get? (Table.mem_iff_get?.mp (hparent t ht))]
      rfl
    simpa [Database.threads] using hview
  refine .bind (fails_createInbound rfl hs₁ rfl (fun c hc => ?_) hp₁ rfl
    (fun hrow => htexts fun hstorable => ?_) fun m' hm' hsame => ?_) fun message db₂ h₂ => ?_
  · obtain rfl : conversation.id = c := Option.some.inj hc
    exact hc₁
  · exact Bool.false_ne_true (hrow.symm.trans (storable_inboundMessage rt hstorable _ _ _ _))
  · obtain ⟨m, hm, -, -, hprovider, hmid⟩ :=
      mergeUnassigned_recalls hmerge.holds hmerge.found h₁ m' hm'
    refine hE m hm ?_
    simp only [carriesIdentity, Bool.or_eq_true, beq_iff_eq]
    exact hsame.imp (fun h => hprovider.trans h.1) fun h => hmid.trans h.1
  · have hs₂ := keeps_createMessage (fun _ => rfl) h₂ hs₁
    obtain ⟨rfl, hcreated⟩ := createMessage_eq_ok h₂
    obtain ⟨table, ht₂, rfl⟩ := hcreated.table
    have hx₂ : (table.get? db₁.nextId).isSome := by
      rw [Table.get?_of_insert? ht₂]
      exact (congrArg Option.isSome (if_pos rfl)).trans rfl
    refine .bind (fails_projectInboundAttachments hs₂ hx₂ htexts) fun count db₃ h₃ => .of_commits ?_
    have hs₃ := keeps_projectInboundAttachments _ _ _ _ _ _ h₃ hs₂
    have hstill₃ := still_projectInboundAttachments _ _ _ _ _ _ h₃
    have hx₃ : (db₃.messages.get? db₁.nextId).isSome := by
      have hview : (db₃.threads.messages db₁.nextId).isSome := by
        rw [hstill₃.messages]
        simpa [Database.threads] using hx₂
      simpa [Database.threads] using hview
    exact .bind (commits_finishProjection hs₃ (hstill₃.found hc₁) hx₃) fun _ _ _ => .pure _ _

theorem fails_newInboundConversation {rt : Runtime Digest} {E : TxError → Prop}
    {event : EmailEventData} {email : ResendEmail} {now : Time} {db : Database Digest}
    (hs : db.Sound) (htexts : ¬StorableEmail event email → E .invalidText)
    (hE : (∃ c ∈ db.conversations, c.routingToken = uuidText (db.nextId + 1)) →
      E .uniqueViolation) :
    Fails E (newInboundConversation email (parseInboundEmail rt event email) now) db := by
  refine .bind (.of_commits (commits_freshId _)) fun id db₁ h₁ => ?_
  obtain ⟨rfl, rfl⟩ := freshId_eq_ok.mp h₁
  refine .bind (.of_commits (commits_freshId _)) fun token db₂ h₂ => ?_
  obtain ⟨rfl, rfl⟩ := freshId_eq_ok.mp h₂
  refine .bind (.bind (.ensure fun hrow => htexts fun hstorable => ?_) fun _ _ h => ?_)
    fun _ _ _ => .of_commits (.pure _ _)
  · exact Bool.false_ne_true (hrow.symm.trans
      (storable_newConversation rt hstorable ⟨_, rfl⟩ rfl rfl rfl rfl rfl rfl rfl))
  obtain ⟨-, rfl⟩ := ensure_eq_ok.mp h
  refine .bind ?_ fun _ db₃ h₃ => ?_
  · refine .bind (.of_commits (.get _)) fun _ _ h => ?_
    obtain ⟨rfl, rfl⟩ := get_eq_ok.mp h
    refine .bind (.ensure fun htaken => hE ?_) fun _ _ h => ?_
    · rw [Bool.not_eq_false', List.any_eq_true] at htaken
      obtain ⟨c, hc, hsame⟩ := htaken
      exact ⟨c, (List.mem_filter.mp hc).1, eq_of_beq hsame⟩
    obtain ⟨-, rfl⟩ := ensure_eq_ok.mp h
    refine .of_commits (.bind (.ensure ?_ _ _) fun _ _ h => ?_)
    · rw [Bool.not_eq_true', List.any_eq_false]
      intro d _ hsame
      cases htype : d.topicType with
      | none => simp [htype] at hsame
      | some type => simp [htype] at hsame
    obtain ⟨-, rfl⟩ := ensure_eq_ok.mp h
    exact .ensure rfl _ _
  · obtain ⟨-, -, -, rfl⟩ := checkConversation_iff.mp h₃
    exact .of_commits (commits_insertRow fun d hd => (hs.conversationId_lt d hd).ne)

/-- The transaction of a projection throws for a text that no column takes, and for a message that
carries the email. -/
theorem projectInboundEmail_fails {rt : Runtime Digest} {config : Config}
    {scan : Scan (EmailMessage Digest)} {now : Time} {event : EmailEventData} {email : ResendEmail}
    {base : JsString} {db : Database Digest} (hs : db.Sound) (htokened : db.threads.Tokened)
    (hproper : db.threads.Proper rt.toLowerCase) :
    Fails (ProjectionError rt db event email)
      (projectInboundEmail rt config scan now event email base) db := by
  refine .bind (.of_commits (.get _)) fun _ _ h => ?_
  obtain ⟨rfl, rfl⟩ := get_eq_ok.mp h
  dsimp only
  split
  · exact .of_commits (.pure _ _)
  · split
    next conversation hchosen =>
      obtain ⟨hstored, -, -⟩ := chooseConversation_stored hchosen
      exact projectInto_fails ⟨hs, fun t ht => (related_stored ht).2.2.1, hstored, hproper.based⟩
        (fun t ht => (related_stored (List.mem_append_left _ (mem_eligible_of_parent ht))).1)
        (fun hrefused => .inl ⟨rfl, hrefused⟩) fun m hm hcarries =>
          .inr ⟨rfl, .inr ⟨m, hm, hcarries⟩⟩
    next hchosen =>
      refine .bind (fails_newInboundConversation hs (fun hrefused => .inl ⟨rfl, hrefused⟩)
        fun ⟨c, hc, heq⟩ => .inr ⟨rfl, .inl ?_⟩) fun conversation db₁ h₁ => ?_
      · -- a taken token means that the identifiers are used up
        by_contra hroom
        have hroom := Nat.lt_of_not_le hroom
        obtain ⟨htoken, hlt⟩ := htokened c.id c.view
          (by simp [Database.threads, Table.mem_iff_get?.mp hc])
        have hsame := uuidText_injective (hlt.trans ((Nat.lt_succ_self _).trans hroom)) hroom
          (htoken.symm.trans heq)
        exact (hs.conversationId_lt c hc).ne (Nat.succ.inj hsame)
      · obtain ⟨henabled, ht₁, hm₁, hkeep, hstored, -, -⟩ :=
          newInboundConversation_threads rt.toLowerCase h₁
        refine projectInto_fails ⟨keeps_newInboundConversation _ _ _ h₁ hs,
          fun t ht => hkeep _ _ (related_stored ht).2.2.1, hstored, ?_⟩ (fun t ht => ?_)
          (fun hrefused => .inl ⟨rfl, hrefused⟩) fun m hm hcarries => ?_
        · rw [ht₁]
          exact (hproper.begun henabled).based
        · rw [hm₁]
          exact (related_stored (List.mem_append_left _ (mem_eligible_of_parent ht))).1
        · exact .inr ⟨rfl, .inr ⟨m, hm₁ ▸ hm, hcarries⟩⟩

end ResendConversation
