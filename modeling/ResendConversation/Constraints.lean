import ResendConversation.Background

/-! # Database constraints

What the schema guarantees of every committed state, as one predicate `Database.Sound`: drawn
identifiers lie below the counter, the unique columns are unique, foreign keys point to rows,
the checks hold, and the event log of a conversation ends at its sequence number.  Every
statement checks its own constraints, so every transaction keeps a database sound; soundness
in turn is what shows that a transaction does not run into a constraint. -/

namespace ResendConversation

open Foundation Tx

variable {Digest : Type}

/-- No two rows share a value of the column. -/
def Database.Distinct (db : Database Digest) {β : Type} (column : EmailMessage Digest → Option β) :
    Prop :=
  ∀ m ∈ db.messages, ∀ n ∈ db.messages, (column m).isSome → column m = column n → m = n

structure Database.Sound (db : Database Digest) : Prop where
  conversationId_lt : ∀ c ∈ db.conversations, c.id < db.nextId
  messageId_lt : ∀ m ∈ db.messages, m.id < db.nextId
  aliasId_lt : ∀ a ∈ db.routingAliases, a.id < db.nextId
  eventId_lt : ∀ e ∈ db.conversationEvents, e.id < db.nextId
  deliveryId_lt : ∀ d ∈ db.conversationEventDeliveries, d.eventId < db.nextId
  attachmentId_lt : ∀ a ∈ db.attachments, a.id < db.nextId ∧ a.storageKey.id < db.nextId
  token : ∀ c ∈ db.conversations, ∀ d ∈ db.conversations, c.routingToken = d.routingToken → c = d
  topic : ∀ c ∈ db.conversations, ∀ d ∈ db.conversations, c.topicType.isSome →
    c.externalTopicId.isSome → c.topicType = d.topicType →
      c.externalTopicId = d.externalTopicId → c = d
  allowlist : ∀ c ∈ db.conversations, c.replyToRequiresAllowlist = true →
    c.replyToBaseAddress.isSome
  logged : ∀ e ∈ db.conversationEvents, e.conversationId < db.nextId ∧
    ∀ c ∈ db.conversations, c.id = e.conversationId → e.sequence ≤ c.eventSequence
  resendEmailId : db.Distinct EmailMessage.resendEmailId
  internetMessageId : db.Distinct EmailMessage.internetMessageId
  idempotencyKey : db.Distinct EmailMessage.idempotencyKey
  placed : ∀ m ∈ db.messages, ∀ c, m.conversationId = some c → (db.conversations.get? c).isSome
  parent : ∀ m ∈ db.messages, ∀ p, m.parentMessageId = some p → (db.messages.get? p).isSome
  shape : ∀ m ∈ db.messages, m.kindShape = true

theorem sound_initial : (Database.initial : Database Digest).Sound := by
  constructor <;> intro x hx <;> cases hx

/-- An update of messages that keeps the column. -/
theorem Database.Distinct.update {β : Type} {column : EmailMessage Digest → Option β}
    {db : Database Digest} {p : EmailMessage Digest → Bool}
    {f : EmailMessage Digest → EmailMessage Digest} {keep : ∀ m, (f m).id = m.id}
    (h : db.Distinct column) (hf : ∀ m, column (f m) = column m) :
    Database.Distinct { db with messages := db.messages.update p f keep } column := by
  have hmem : ∀ m' ∈ db.messages.update p f keep, ∃ m ∈ db.messages,
      (if p m then f m else m) = m' :=
    fun _ h' => Table.mem_update.mp h'
  have hite : ∀ x : EmailMessage Digest, column (if p x then f x else x) = column x := by
    intro x
    split
    · exact hf x
    · rfl
  intro m' hm' n' hn' hsome heq
  obtain ⟨m, hm, rfl⟩ := hmem m' hm'
  obtain ⟨n, hn, rfl⟩ := hmem n' hn'
  rw [hite] at hsome heq
  rw [hite] at heq
  rw [h m hm n hn hsome heq]

namespace Database.Sound

/-- A statement on tables without a constraint that is recorded here. -/
theorem of_eq {db db' : Database Digest} (h : db.Sound) (hn : db.nextId ≤ db'.nextId)
    (hc : db'.conversations = db.conversations) (hm : db'.messages = db.messages)
    (ha : db'.routingAliases = db.routingAliases)
    (he : db'.conversationEvents = db.conversationEvents)
    (hd : db'.conversationEventDeliveries = db.conversationEventDeliveries)
    (hf : ∀ a ∈ db'.attachments, a.id < db'.nextId ∧ a.storageKey.id < db'.nextId) : db'.Sound where
  conversationId_lt := fun c h' => (h.conversationId_lt c (hc ▸ h')).trans_le hn
  messageId_lt := fun m h' => (h.messageId_lt m (hm ▸ h')).trans_le hn
  aliasId_lt := fun a h' => (h.aliasId_lt a (ha ▸ h')).trans_le hn
  eventId_lt := fun e h' => (h.eventId_lt e (he ▸ h')).trans_le hn
  deliveryId_lt := fun d h' => (h.deliveryId_lt d (hd ▸ h')).trans_le hn
  attachmentId_lt := hf
  token := by rw [hc]; exact h.token
  topic := by rw [hc]; exact h.topic
  allowlist := by rw [hc]; exact h.allowlist
  logged := by
    rw [hc, he]
    exact fun e h' => ⟨(h.logged e h').1.trans_le hn, (h.logged e h').2⟩
  resendEmailId := by unfold Distinct; rw [hm]; exact h.resendEmailId
  internetMessageId := by unfold Distinct; rw [hm]; exact h.internetMessageId
  idempotencyKey := by unfold Distinct; rw [hm]; exact h.idempotencyKey
  placed := by rw [hc, hm]; exact h.placed
  parent := by rw [hm]; exact h.parent
  shape := by rw [hm]; exact h.shape

theorem attachments_le {db : Database Digest} (h : db.Sound) {n : ℕ} (hn : db.nextId ≤ n) :
    ∀ a ∈ db.attachments, a.id < n ∧ a.storageKey.id < n :=
  fun a ha => ⟨(h.attachmentId_lt a ha).1.trans_le hn, (h.attachmentId_lt a ha).2.trans_le hn⟩

/-! ### Messages -/

/-- A statement that rewrites messages. -/
theorem updateMessages {db : Database Digest} {p : EmailMessage Digest → Bool}
    {f : EmailMessage Digest → EmailMessage Digest} {keep : ∀ m, (f m).id = m.id} (h : db.Sound)
    (hr : Database.Distinct { db with messages := db.messages.update p f keep }
      EmailMessage.resendEmailId) (hi : ∀ m, (f m).internetMessageId = m.internetMessageId)
    (hk : ∀ m, (f m).idempotencyKey = m.idempotencyKey)
    (hplaced : ∀ m ∈ db.messages, p m = true → ∀ c, (f m).conversationId = some c →
      (db.conversations.get? c).isSome)
    (hparent : ∀ m ∈ db.messages, p m = true → ∀ q, (f m).parentMessageId = some q →
      (db.messages.get? q).isSome)
    (hshape : ∀ m ∈ db.messages, p m = true → (f m).kindShape = true) :
    Database.Sound { db with messages := db.messages.update p f keep } := by
  have hmem : ∀ m' ∈ db.messages.update p f keep, ∃ m ∈ db.messages,
      (if p m then f m else m) = m' :=
    fun _ h' => Table.mem_update.mp h'
  exact
    { h with
      messageId_lt := by
        intro m' hm'
        obtain ⟨m, hm, rfl⟩ := hmem m' hm'
        rw [Table.key_ite keep]
        exact h.messageId_lt m hm
      resendEmailId := hr
      internetMessageId := h.internetMessageId.update hi
      idempotencyKey := h.idempotencyKey.update hk
      placed := by
        intro m' hm' c hc
        obtain ⟨m, hm, rfl⟩ := hmem m' hm'
        split at hc
        next hp => exact hplaced m hm hp c hc
        next => exact h.placed m hm c hc
      parent := by
        intro m' hm' q hq
        obtain ⟨m, hm, rfl⟩ := hmem m' hm'
        rw [Table.get?_update, Option.isSome_map]
        split at hq
        next hp => exact hparent m hm hp q hq
        next => exact h.parent m hm q hq
      shape := by
        intro m' hm'
        obtain ⟨m, hm, rfl⟩ := hmem m' hm'
        split
        next hp => exact hshape m hm hp
        next => exact h.shape m hm }

end Database.Sound

/-- The shape of a row does not depend on its send state, once the message was not received. -/
theorem EmailMessage.kindShape_of_send {m m' : EmailMessage Digest} (h : m.kindShape = true)
    (hk : m'.kind = m.kind) (hs : m'.state ≠ .received) (hc : m'.conversationId = m.conversationId)
    (hd : m'.direction = m.direction) (hp : m'.parentMessageId = m.parentMessageId)
    (hi : m'.internetMessageId = m.internetMessageId)
    (hr : m'.inReplyToInternetMessageId = m.inReplyToInternetMessageId)
    (hrefs : m'.referenceInternetMessageIds = m.referenceInternetMessageIds)
    (ha : m'.replyToAddress = m.replyToAddress) (hn : m'.replyToName = m.replyToName) :
    m'.kindShape = true := by
  unfold kindShape at h ⊢
  rw [hk, hc]
  cases hkind : m.kind with
  | conversation => simpa [hkind] using h
  | direct => simp_all

section
variable {db db' : Database Digest}

/-- No other row has the value: what the check of a unique column says. -/
theorem not_takenBy {β : Type} [DecidableEq β] {id : Uuid} {column : EmailMessage Digest → Option β}
    {value : Option β} :
    (!db.takenBy id column value) = true ↔
      ∀ m ∈ db.messages, m.id ≠ id → value.isSome → column m ≠ value := by
  simp only [Database.takenBy, Bool.not_eq_true', Bool.and_eq_false_iff, List.any_eq_false,
    Bool.and_eq_true, bne_iff_ne, beq_iff_eq, not_and, ne_eq]
  constructor
  · rintro (h | h) m hm hne hsome
    · rw [h] at hsome
      cases hsome
    · exact h m hm hne
  · intro h
    cases hv : value.isSome with
    | false => exact .inl rfl
    | true => exact .inr fun m hm hne => h m hm hne hv

theorem Database.Distinct.insert {β : Type} {column : EmailMessage Digest → Option β}
    {row : EmailMessage Digest} {table : Table EmailMessage.id} (h : db.Distinct column)
    (hrow : ∀ m ∈ db.messages, m.id ≠ row.id → (column row).isSome → column m ≠ column row)
    (hfree : db.messages.get? row.id = none) (ht : db.messages.insert? row = some table) {n : ℕ} :
    Database.Distinct { db with nextId := n, messages := table } column := by
  have hne : ∀ m ∈ db.messages, m.id ≠ row.id := Table.get?_eq_none.mp hfree
  intro m hm k hk hsome heq
  rcases (Table.mem_insert? ht).mp hm with hm | rfl
  · rcases (Table.mem_insert? ht).mp hk with hk | rfl
    · exact h m hm k hk hsome heq
    · exact absurd heq (hrow m hm (hne m hm) (heq ▸ hsome))
  · rcases (Table.mem_insert? ht).mp hk with hk | rfl
    · exact absurd heq.symm (hrow k hk (hne k hk) hsome)
    · rfl

theorem Database.Distinct.updateOne {β : Type} {column : EmailMessage Digest → Option β} {id : Uuid}
    {f : EmailMessage Digest → EmailMessage Digest} {keep : ∀ m, (f m).id = m.id}
    {m₀ : EmailMessage Digest} (h : db.Distinct column) (hm₀ : db.messages.get? id = some m₀)
    (hrow : ∀ m ∈ db.messages, m.id ≠ id → (column (f m₀)).isSome → column m ≠ column (f m₀)) :
    Database.Distinct { db with messages := db.messages.update (fun m => m.id == id) f keep }
      column := by
  have hmem : ∀ m' ∈ db.messages.update (fun m => m.id == id) f keep,
      ∃ m ∈ db.messages, (if m.id == id then f m else m) = m' := fun _ h' => Table.mem_update.mp h'
  intro m' hm' k' hk' hsome heq
  obtain ⟨m, hm, rfl⟩ := hmem m' hm'
  obtain ⟨k, hk, rfl⟩ := hmem k' hk'
  have heq₀ : ∀ x ∈ db.messages, (x.id == id) = true → x = m₀ := fun x hx hid =>
    Table.key_inj hx (Table.mem_of_get? hm₀)
      ((beq_iff_eq.mp hid).trans (Table.key_of_get? hm₀).symm)
  by_cases hmid : (m.id == id) = true
  · by_cases hkid : (k.id == id) = true
    · rw [heq₀ m hm hmid, heq₀ k hk hkid]
    · rw [if_pos hmid] at hsome heq
      rw [if_neg hkid, heq₀ m hm hmid] at heq
      rw [heq₀ m hm hmid] at hsome
      exact absurd heq.symm (hrow k hk (by simpa using hkid) hsome)
  · by_cases hkid : (k.id == id) = true
    · rw [if_neg hmid] at hsome heq
      rw [if_pos hkid, heq₀ k hk hkid] at heq
      exact absurd heq (hrow m hm (by simpa using hmid) (heq ▸ hsome))
    · rw [if_neg hmid] at hsome heq
      rw [if_neg hkid] at heq
      rw [h m hm k hk hsome heq]

end

/-! ### Statements -/

/-- A statement keeps a database sound. -/
def Keeps (db db' : Database Digest) : Prop := db.Sound → db'.Sound

instance : Std.Refl (@Keeps Digest) where
  refl _ h := h

instance : IsTrans (Database Digest) Keeps where
  trans _ _ _ h h' hs := h' (h hs)

theorem keeps_freshId : Preserves Keeps (freshId : Transaction Digest Uuid) := by
  intro db id db' h hs
  obtain ⟨-, rfl⟩ := freshId_eq_ok.mp h
  exact hs.of_eq (Nat.le_succ _) rfl rfl rfl rfl rfl (hs.attachments_le (Nat.le_succ _))

theorem keeps_createMessage {row : Uuid → EmailMessage Digest} (hid : ∀ id, (row id).id = id) :
    Preserves Keeps (createMessage row) := by
  intro db m db' h hs
  simp only [createMessage, bind_eq_ok, freshId_eq_ok, checkTexts_eq_ok, checkMessage_eq_ok,
    insertRow_eq_ok, pure_eq_ok, not_takenBy] at h
  obtain ⟨id, _, ⟨rfl, rfl⟩, _, _, ⟨-, rfl⟩, _, _, ⟨hr, hi, hk, hc, hp, hshape, rfl⟩, _, _,
    ⟨table, ht, rfl⟩, rfl, rfl⟩ := h
  have hfree := Table.insert?_eq_some_iff.mp ⟨table, ht⟩
  have hmem : ∀ m, m ∈ table ↔ m ∈ db.messages ∨ m = row db.nextId := fun m => Table.mem_insert? ht
  have hn : db.nextId ≤ db.nextId + 1 := Nat.le_succ _
  have hget : ∀ k, (db.messages.get? k).isSome → (table.get? k).isSome := by
    intro k hk
    rw [Table.get?_of_insert? ht]
    split
    · rfl
    · exact hk
  have hdistinct : ∀ {β : Type} {column : EmailMessage Digest → Option β}, db.Distinct column →
      (∀ m ∈ db.messages, m.id ≠ (row db.nextId).id → (column (row db.nextId)).isSome →
        column m ≠ column (row db.nextId)) →
      Database.Distinct { db with nextId := db.nextId + 1, messages := table } column :=
    fun h hrow => h.insert hrow hfree ht
  exact
    { conversationId_lt := fun c h => (hs.conversationId_lt c h).trans_le hn
      messageId_lt := by
        intro m hm
        rcases (hmem m).mp hm with hm | rfl
        · exact (hs.messageId_lt m hm).trans_le hn
        · rw [hid]
          exact Nat.lt_succ_self _
      aliasId_lt := fun a h => (hs.aliasId_lt a h).trans_le hn
      eventId_lt := fun e h => (hs.eventId_lt e h).trans_le hn
      deliveryId_lt := fun d h => (hs.deliveryId_lt d h).trans_le hn
      attachmentId_lt := hs.attachments_le hn
      token := hs.token
      topic := hs.topic
      allowlist := hs.allowlist
      logged := fun e h => ⟨(hs.logged e h).1.trans_le hn, (hs.logged e h).2⟩
      resendEmailId := hdistinct hs.resendEmailId hr
      internetMessageId := hdistinct hs.internetMessageId hi
      idempotencyKey := hdistinct hs.idempotencyKey hk
      placed := by
        intro m hm c hmc
        rcases (hmem m).mp hm with hm | rfl
        · exact hs.placed m hm c hmc
        · simpa [hmc] using hc
      parent := by
        intro m hm p hmp
        apply hget
        rcases (hmem m).mp hm with hm | rfl
        · exact hs.parent m hm p hmp
        · simpa [hmp] using hp
      shape := by
        intro m hm
        rcases (hmem m).mp hm with hm | rfl
        · exact hs.shape m hm
        · exact hshape }

theorem keeps_updateMessage {id : Uuid} {f : EmailMessage Digest → EmailMessage Digest}
    {keep : ∀ m, (f m).id = m.id} : Preserves Keeps (updateMessage id f keep) := by
  intro db r db' h hs
  obtain ⟨m, hm, ⟨u, hcheck⟩, -, rfl⟩ := updateMessage_eq_ok.mp h
  simp only [checkMessage_eq_ok, not_takenBy, keep, Table.key_of_get? hm, and_true] at hcheck
  obtain ⟨hr, hi, hk, hc, hp, hshape⟩ := hcheck
  have hmem : ∀ x' ∈ db.messages.update (fun m => m.id == id) f keep,
      ∃ x ∈ db.messages, (if x.id == id then f x else x) = x' := fun _ h => Table.mem_update.mp h
  have heq : ∀ x ∈ db.messages, (x.id == id) = true → x = m := fun x hx hid =>
    Table.key_inj hx (Table.mem_of_get? hm) ((beq_iff_eq.mp hid).trans (Table.key_of_get? hm).symm)
  exact
    { hs with
      messageId_lt := by
        intro x' hx'
        obtain ⟨x, hx, rfl⟩ := hmem x' hx'
        exact (Table.key_ite (p := fun m => m.id == id) keep x).trans_lt (hs.messageId_lt x hx)
      resendEmailId := hs.resendEmailId.updateOne hm hr
      internetMessageId := hs.internetMessageId.updateOne hm hi
      idempotencyKey := hs.idempotencyKey.updateOne hm hk
      placed := by
        intro x' hx' c hxc
        obtain ⟨x, hx, rfl⟩ := hmem x' hx'
        split at hxc
        next hid =>
          rw [heq x hx hid] at hxc
          simpa [hxc] using hc
        next => exact hs.placed x hx c hxc
      parent := by
        intro x' hx' p hxp
        obtain ⟨x, hx, rfl⟩ := hmem x' hx'
        rw [Table.get?_update, Option.isSome_map]
        split at hxp
        next hid =>
          rw [heq x hx hid] at hxp
          simpa [hxp] using hp
        next => exact hs.parent x hx p hxp
      shape := by
        intro x' hx'
        obtain ⟨x, hx, rfl⟩ := hmem x' hx'
        split
        next hid =>
          rw [heq x hx hid]
          exact hshape
        next => exact hs.shape x hx }

/-- An update of the send state. -/
theorem keeps_sendState {p : EmailMessage Digest → Bool}
    {f : EmailMessage Digest → EmailMessage Digest} {keep : ∀ m, (f m).id = m.id}
    (hview : ∀ m, (f m).kindShape = m.kindShape ∨
      (m.kindShape = true → (f m).kindShape = true))
    (hc : ∀ m, (f m).conversationId = m.conversationId)
    (hp : ∀ m, (f m).parentMessageId = m.parentMessageId)
    (hr : ∀ m, (f m).resendEmailId = m.resendEmailId)
    (hi : ∀ m, (f m).internetMessageId = m.internetMessageId)
    (hk : ∀ m, (f m).idempotencyKey = m.idempotencyKey) :
    Preserves Keeps (updateMessages p f keep) := by
  intro db n db' h hs
  obtain ⟨-, rfl⟩ := updateMessages_eq_ok.mp h
  refine hs.updateMessages (hs.resendEmailId.update hr) hi hk
    (fun m hm _ c hmc => hs.placed m hm c (hc m ▸ hmc))
    (fun m hm _ q hmq => hs.parent m hm q (hp m ▸ hmq)) fun m hm _ => ?_
  rcases hview m with h | h
  · rw [h]
    exact hs.shape m hm
  · exact h (hs.shape m hm)

/-! ### Conversations -/

theorem checkConversation_iff {c : EmailConversation} {db db' : Database Digest} {u : Unit} :
    checkConversation c db = .ok (u, db') ↔
      (∀ d ∈ db.conversations, d.id ≠ c.id → d.routingToken ≠ c.routingToken) ∧
      (∀ d ∈ db.conversations, d.id ≠ c.id → d.topicType.isSome → d.externalTopicId.isSome →
        ¬(d.topicType = c.topicType ∧ d.externalTopicId = c.externalTopicId)) ∧
      (c.replyToRequiresAllowlist = true → c.replyToBaseAddress.isSome) ∧ db = db' := by
  simp only [checkConversation, bind_eq_ok, get_eq_ok, ensure_eq_ok]
  constructor
  · rintro ⟨_, _, ⟨rfl, rfl⟩, _, _, ⟨ht, rfl⟩, _, _, ⟨hp, rfl⟩, ha, rfl⟩
    refine ⟨?_, ?_, fun hreq => by simpa [hreq] using ha, rfl⟩
    · simpa [Table.mem_def] using ht
    · simpa [Table.mem_def] using hp
  · rintro ⟨ht, hp, ha, rfl⟩
    refine ⟨_, _, ⟨rfl, rfl⟩, (), _, ⟨?_, rfl⟩, (), _, ⟨?_, rfl⟩, ?_, rfl⟩
    · simpa [Table.mem_def] using ht
    · simpa [Table.mem_def] using hp
    · cases hreq : c.replyToRequiresAllowlist with
      | false => rfl
      | true => simpa using ha hreq

theorem sound_createConversation {c : EmailConversation} {db db' : Database Digest} {n : Uuid}
    {u : Unit} (hs : db.Sound) (hid : c.id = db.nextId) (hn : db.nextId < n)
    (h : createConversation c { db with nextId := n } = .ok (u, db')) : db'.Sound := by
  simp only [createConversation, bind_eq_ok, checkTexts_eq_ok, checkConversation_iff,
    insertRow_eq_ok] at h
  obtain ⟨_, _, ⟨-, rfl⟩, _, _, ⟨htoken, htopic, hallow, rfl⟩, table, ht, rfl⟩ := h
  have hmem : ∀ d, d ∈ table ↔ d ∈ db.conversations ∨ d = c := fun d => Table.mem_insert? ht
  have hne : ∀ d ∈ db.conversations, d.id ≠ c.id := fun d hd h =>
    absurd (h.trans hid) (hs.conversationId_lt d hd).ne
  exact
    { conversationId_lt := by
        intro d hd
        rcases (hmem d).mp hd with hd | rfl
        · exact (hs.conversationId_lt d hd).trans hn
        · exact hid ▸ hn
      messageId_lt := fun m h => (hs.messageId_lt m h).trans hn
      aliasId_lt := fun a h => (hs.aliasId_lt a h).trans hn
      eventId_lt := fun e h => (hs.eventId_lt e h).trans hn
      deliveryId_lt := fun d h => (hs.deliveryId_lt d h).trans hn
      attachmentId_lt := hs.attachments_le hn.le
      token := by
        intro d hd e he heq
        rcases (hmem d).mp hd with hd | rfl
        · rcases (hmem e).mp he with he | rfl
          · exact hs.token d hd e he heq
          · exact absurd heq (htoken d hd (hne d hd))
        · rcases (hmem e).mp he with he | rfl
          · exact absurd heq.symm (htoken e he (hne e he))
          · rfl
      topic := by
        intro d hd e he hsome hsome' heq heq'
        rcases (hmem d).mp hd with hd | rfl
        · rcases (hmem e).mp he with he | rfl
          · exact hs.topic d hd e he hsome hsome' heq heq'
          · exact absurd ⟨heq, heq'⟩ (htopic d hd (hne d hd) hsome hsome')
        · rcases (hmem e).mp he with he | rfl
          · exact absurd ⟨heq.symm, heq'.symm⟩
              (htopic e he (hne e he) (heq ▸ hsome) (heq' ▸ hsome'))
          · rfl
      allowlist := by
        intro d hd
        rcases (hmem d).mp hd with hd | rfl
        · exact hs.allowlist d hd
        · exact hallow
      logged := by
        intro e he
        refine ⟨(hs.logged e he).1.trans hn, fun d hd heq => ?_⟩
        rcases (hmem d).mp hd with hd | rfl
        · exact (hs.logged e he).2 d hd heq
        · exact absurd (heq.symm.trans hid) (hs.logged e he).1.ne
      resendEmailId := hs.resendEmailId
      internetMessageId := hs.internetMessageId
      idempotencyKey := hs.idempotencyKey
      placed := by
        intro m hm d hd
        have h := hs.placed m hm d hd
        rw [Table.get?_of_insert? ht]
        split
        · rfl
        · exact h
      parent := hs.parent
      shape := hs.shape }

theorem keeps_updateConversation {id : Uuid} {f : EmailConversation → EmailConversation}
    {keep : ∀ c, (f c).id = c.id}
    (hseq : ∀ c : EmailConversation, c.eventSequence ≤ (f c).eventSequence) :
    Preserves Keeps (updateConversation id f keep : Transaction Digest _) := by
  intro db r db' h hs
  simp only [updateConversation, findConversationOrThrow, bind_eq_ok, get_eq_ok, orThrow_eq_ok,
    checkConversation_iff, modify_eq_ok, pure_eq_ok] at h
  obtain ⟨c, _, ⟨_, _, ⟨rfl, rfl⟩, hc, rfl⟩, _, _, ⟨htoken, htopic, hallow, rfl⟩, _, _, rfl,
    -, rfl⟩ := h
  have hid := Table.key_of_get? hc
  rw [keep c, hid] at htoken htopic
  have hmem : ∀ x' ∈ db.conversations.update (fun c => c.id == id) f keep,
      ∃ x ∈ db.conversations, (if x.id == id then f x else x) = x' := fun _ h =>
        Table.mem_update.mp h
  have heq : ∀ x ∈ db.conversations, (x.id == id) = true → x = c := fun x hx h =>
    Table.key_inj hx (Table.mem_of_get? hc) ((beq_iff_eq.mp h).trans hid.symm)
  have hkey : ∀ x : EmailConversation, (if x.id == id then f x else x).id = x.id := fun x =>
    Table.key_ite (p := fun c => c.id == id) keep x
  exact
    { hs with
      conversationId_lt := by
        intro x' hx'
        obtain ⟨x, hx, rfl⟩ := hmem x' hx'
        exact (hkey x).trans_lt (hs.conversationId_lt x hx)
      token := by
        intro x' hx' y' hy' h
        obtain ⟨x, hx, rfl⟩ := hmem x' hx'
        obtain ⟨y, hy, rfl⟩ := hmem y' hy'
        by_cases hxid : (x.id == id) = true
        · by_cases hyid : (y.id == id) = true
          · rw [heq x hx hxid, heq y hy hyid]
          · rw [if_pos hxid, if_neg hyid, heq x hx hxid] at h
            exact absurd h.symm (htoken y hy (by simpa using hyid))
        · by_cases hyid : (y.id == id) = true
          · rw [if_neg hxid, if_pos hyid, heq y hy hyid] at h
            exact absurd h (htoken x hx (by simpa using hxid))
          · rw [if_neg hxid, if_neg hyid] at h
            rw [hs.token x hx y hy h]
      topic := by
        intro x' hx' y' hy' hsome hsome' h h'
        obtain ⟨x, hx, rfl⟩ := hmem x' hx'
        obtain ⟨y, hy, rfl⟩ := hmem y' hy'
        by_cases hxid : (x.id == id) = true
        · by_cases hyid : (y.id == id) = true
          · rw [heq x hx hxid, heq y hy hyid]
          · rw [if_pos hxid, heq x hx hxid] at hsome hsome' h h'
            rw [if_neg hyid] at h h'
            exact absurd ⟨h.symm, h'.symm⟩
              (htopic y hy (by simpa using hyid) (h ▸ hsome) (h' ▸ hsome'))
        · by_cases hyid : (y.id == id) = true
          · rw [if_neg hxid] at hsome hsome' h h'
            rw [if_pos hyid, heq y hy hyid] at h h'
            exact absurd ⟨h, h'⟩ (htopic x hx (by simpa using hxid) hsome hsome')
          · rw [if_neg hxid] at hsome hsome' h h'
            rw [if_neg hyid] at h h'
            rw [hs.topic x hx y hy hsome hsome' h h']
      allowlist := by
        intro x' hx'
        obtain ⟨x, hx, rfl⟩ := hmem x' hx'
        split
        next hxid =>
          rw [heq x hx hxid]
          exact hallow
        next => exact hs.allowlist x hx
      logged := by
        intro e he
        refine ⟨(hs.logged e he).1, fun x' hx' h => ?_⟩
        obtain ⟨x, hx, rfl⟩ := hmem x' hx'
        rw [hkey] at h
        have hle := (hs.logged e he).2 x hx h
        split
        · exact hle.trans (hseq x)
        · exact hle
      placed := by
        intro m hm d hd
        rw [Table.get?_update, Option.isSome_map]
        exact hs.placed m hm d hd }

theorem keeps_updateConversations {p : EmailConversation → Bool}
    {f : EmailConversation → EmailConversation} {keep : ∀ c, (f c).id = c.id}
    (hview : ∀ c : EmailConversation, (f c).routingToken = c.routingToken ∧
      (f c).topicType = c.topicType ∧ (f c).externalTopicId = c.externalTopicId ∧
      (f c).replyToRequiresAllowlist = c.replyToRequiresAllowlist ∧
      (f c).replyToBaseAddress = c.replyToBaseAddress ∧ (f c).eventSequence = c.eventSequence) :
    Preserves Keeps (updateConversations p f keep : Transaction Digest _) := by
  intro db n db' h hs
  rw [updateConversations_eq_ok h]
  have hmem : ∀ x' ∈ db.conversations.update p f keep,
      ∃ x ∈ db.conversations, (if p x then f x else x) = x' := fun _ h => Table.mem_update.mp h
  have hsame : ∀ x : EmailConversation, ∃ y, y = (if p x then f x else x) ∧ y.id = x.id ∧
      y.routingToken = x.routingToken ∧ y.topicType = x.topicType ∧
      y.externalTopicId = x.externalTopicId ∧
        y.replyToRequiresAllowlist = x.replyToRequiresAllowlist ∧
      y.replyToBaseAddress = x.replyToBaseAddress ∧ y.eventSequence = x.eventSequence := by
    intro x
    refine ⟨_, rfl, ?_⟩
    split
    · exact ⟨keep x, hview x⟩
    · exact ⟨rfl, rfl, rfl, rfl, rfl, rfl, rfl⟩
  exact
    { hs with
      conversationId_lt := by
        intro x' hx'
        obtain ⟨x, hx, rfl⟩ := hmem x' hx'
        obtain ⟨y, rfl, hid, -⟩ := hsame x
        exact hid.trans_lt (hs.conversationId_lt x hx)
      token := by
        intro x' hx' y' hy' h
        obtain ⟨x, hx, rfl⟩ := hmem x' hx'
        obtain ⟨y, hy, rfl⟩ := hmem y' hy'
        obtain ⟨_, rfl, -, hxt, -⟩ := hsame x
        obtain ⟨_, rfl, -, hyt, -⟩ := hsame y
        rw [hs.token x hx y hy (hxt.symm.trans (h.trans hyt))]
      topic := by
        intro x' hx' y' hy' hsome hsome' h h'
        obtain ⟨x, hx, rfl⟩ := hmem x' hx'
        obtain ⟨y, hy, rfl⟩ := hmem y' hy'
        obtain ⟨_, rfl, -, -, hxt, hxe, -⟩ := hsame x
        obtain ⟨_, rfl, -, -, hyt, hye, -⟩ := hsame y
        rw [hs.topic x hx y hy (hxt ▸ hsome) (hxe ▸ hsome') (hxt.symm.trans (h.trans hyt))
          (hxe.symm.trans (h'.trans hye))]
      allowlist := by
        intro x' hx' hreq
        obtain ⟨x, hx, rfl⟩ := hmem x' hx'
        obtain ⟨_, rfl, -, -, -, -, hxr, hxb, -⟩ := hsame x
        rw [hxb]
        exact hs.allowlist x hx (hxr ▸ hreq)
      logged := by
        intro e he
        refine ⟨(hs.logged e he).1, fun x' hx' h => ?_⟩
        obtain ⟨x, hx, rfl⟩ := hmem x' hx'
        obtain ⟨_, rfl, hid, -, -, -, -, -, hxs⟩ := hsame x
        rw [hxs]
        exact (hs.logged e he).2 x hx (hid ▸ h)
      placed := by
        intro m hm d hd
        rw [Table.get?_update, Option.isSome_map]
        exact hs.placed m hm d hd }

theorem keeps_appendConversationEvent (config : Config) (input : ConversationEventInput) :
    Preserves Keeps (appendConversationEvent config input : Transaction Digest _) := by
  unfold appendConversationEvent
  split
  · intro db a db' h hs
    obtain ⟨c, db₁, h₁, h⟩ := bind_eq_ok.mp h
    have hs₁ := keeps_updateConversation (fun _ => Nat.le_succ _) h₁ hs
    obtain ⟨⟨c₀, hc₀, rfl⟩, rfl⟩ := updateConversation_eq_ok h₁
    have hid := Table.key_of_get? hc₀
    simp only [bind_eq_ok, get_eq_ok, ensure_eq_ok, freshId_eq_ok, insertRow_eq_ok, pure_eq_ok] at h
    obtain ⟨_, _, ⟨rfl, rfl⟩, _, _, ⟨-, rfl⟩, id, _, ⟨rfl, rfl⟩, _, _, ⟨events, hev, rfl⟩, _, _,
      ⟨deliveries, hdel, rfl⟩, -, rfl⟩ := h
    have hn : db.nextId ≤ db.nextId + 1 := Nat.le_succ _
    exact
      { conversationId_lt := fun c h => (hs₁.conversationId_lt c h).trans_le hn
        messageId_lt := fun m h => (hs₁.messageId_lt m h).trans_le hn
        aliasId_lt := fun a h => (hs₁.aliasId_lt a h).trans_le hn
        eventId_lt := by
          intro e he
          rcases (Table.mem_insert? hev).mp he with he | rfl
          · exact (hs.eventId_lt e he).trans_le hn
          · exact Nat.lt_succ_self _
        deliveryId_lt := by
          intro d hd
          rcases (Table.mem_insert? hdel).mp hd with hd | rfl
          · exact (hs.deliveryId_lt d hd).trans_le hn
          · exact Nat.lt_succ_self _
        attachmentId_lt := hs₁.attachments_le hn
        token := hs₁.token
        topic := hs₁.topic
        allowlist := hs₁.allowlist
        logged := by
          intro e he
          rcases (Table.mem_insert? hev).mp he with he | rfl
          · exact ⟨(hs₁.logged e he).1.trans_le hn, (hs₁.logged e he).2⟩
          · refine ⟨(hs.conversationId_lt c₀ (Table.mem_of_get? hc₀)).trans_le hn,
              fun d hd heq => ?_⟩
            -- the row under the identifier is the one whose number was just raised
            rw [Table.mem_update] at hd
            obtain ⟨x, hx, rfl⟩ := hd
            split at heq
            next hxid =>
              have : x = c₀ := Table.key_inj hx (Table.mem_of_get? hc₀)
                ((beq_iff_eq.mp hxid).trans hid.symm)
              rw [if_pos hxid, this]
            next hxid => exact absurd (heq.trans hid) (by simpa using hxid)
        resendEmailId := hs₁.resendEmailId
        internetMessageId := hs₁.internetMessageId
        idempotencyKey := hs₁.idempotencyKey
        placed := hs₁.placed
        parent := hs₁.parent
        shape := hs₁.shape }
  · exact .pure _

/-! ### Aliases and attachments -/

theorem keeps_moveAliases (target : Uuid) (ids : List Uuid) :
    Preserves Keeps (modify fun db => { db with
      routingAliases := db.routingAliases.update (fun a => ids.contains a.conversationId) fun a =>
        { a with conversationId := target } } : Transaction Digest Unit) := by
  refine .modify fun db hs => { hs with aliasId_lt := fun a' ha' => ?_ }
  rw [Table.mem_update] at ha'
  obtain ⟨a, ha, rfl⟩ := ha'
  split
  · exact hs.aliasId_lt a ha
  · exact hs.aliasId_lt a ha

theorem keeps_createRoutingAlias (id : Uuid) (source : EmailConversation) :
    Preserves Keeps (createRoutingAlias id source : Transaction Digest _) := by
  refine .bind .get fun db => ?_
  split
  · exact .pure _
  · refine .ite (.pure _) ?_
    intro db u db' h hs
    simp only [bind_eq_ok, freshId_eq_ok, insertRow_eq_ok] at h
    obtain ⟨_, _, ⟨rfl, rfl⟩, table, ht, rfl⟩ := h
    have hs₁ := keeps_freshId (freshId_eq_ok.mpr ⟨rfl, rfl⟩) hs
    refine { hs₁ with aliasId_lt := fun a ha => ?_ }
    rcases (Table.mem_insert? ht).mp ha with ha | rfl
    · exact hs₁.aliasId_lt a ha
    · exact Nat.lt_succ_self _

theorem keeps_updateAttachments {p : EmailAttachment → Bool} {f : EmailAttachment → EmailAttachment}
    {keep : ∀ a, (f a).id = a.id} (hf : ∀ a, (f a).storageKey = a.storageKey) :
    Preserves Keeps (updateAttachments p f keep : Transaction Digest _) := by
  intro db n db' h hs
  rw [updateAttachments, modifyGet_eq_ok, Prod.mk.injEq] at h
  obtain ⟨-, rfl⟩ := h
  refine { hs with attachmentId_lt := fun a' ha' => ?_ }
  rw [Table.mem_update] at ha'
  obtain ⟨a, ha, rfl⟩ := ha'
  split
  · rw [keep, hf]
    exact hs.attachmentId_lt a ha
  · exact hs.attachmentId_lt a ha

/-- A new attachment whose storage key was drawn. -/
theorem sound_createAttachment {a : EmailAttachment} {db db' : Database Digest} {u : Unit}
    (hs : db.Sound) (hid : a.id < db.nextId) (hkey : a.storageKey.id < db.nextId)
    (h : createAttachment a db = .ok (u, db')) : db'.Sound := by
  obtain ⟨-, table, ht, rfl⟩ := createAttachment_eq_ok h
  refine { hs with attachmentId_lt := fun b hb => ?_ }
  rcases (Table.mem_insert? ht).mp hb with hb | rfl
  · exact hs.attachmentId_lt b hb
  · exact ⟨hid, hkey⟩

theorem keeps_projectInboundAttachment (toLowerCase : JsString → JsString) (config : Config)
    (now : Time) (messageId : Uuid) (resendEmailId : JsString)
    (attachment : ResendReceivedAttachment) :
    Preserves Keeps (projectInboundAttachment toLowerCase config now messageId resendEmailId
      attachment : Transaction Digest _) := by
  refine .bind .get fun db => .ite (.pure _) ?_
  intro db b db' h hs
  simp only [bind_eq_ok, freshId_eq_ok, pure_eq_ok] at h
  obtain ⟨_, _, ⟨rfl, rfl⟩, _, _, ⟨rfl, rfl⟩, _, _, hc, -, rfl⟩ := h
  have hs₁ := keeps_freshId (freshId_eq_ok.mpr ⟨rfl, rfl⟩)
    (keeps_freshId (freshId_eq_ok.mpr ⟨rfl, rfl⟩) hs)
  exact sound_createAttachment hs₁ (Nat.lt_add_of_pos_right Nat.two_pos) (Nat.lt_succ_self _) hc

theorem keeps_projectInboundAttachments (toLowerCase : JsString → JsString) (config : Config)
    (now : Time) (messageId : Uuid) (resendEmailId : JsString)
    (attachments : List ResendReceivedAttachment) :
    Preserves Keeps (projectInboundAttachments toLowerCase config now messageId resendEmailId
      attachments : Transaction Digest _) := by
  have hall : ∀ as, Preserves Keeps (countCreated (projectInboundAttachment toLowerCase config now
      messageId resendEmailId) as : Transaction Digest _) := by
    intro as
    induction as with
    | nil => exact .pure _
    | cons a as ih =>
        exact .bind (keeps_projectInboundAttachment _ _ _ _ _ a) fun _ => .bind ih fun _ => .pure _
  exact .ite (hall _) (.pure _)

theorem keeps_claimAttachmentsForMessage (config : Config) (messageId : Uuid)
    (refs : Option (List EmailAttachmentRefInput)) :
    Preserves Keeps (claimAttachmentsForMessage config messageId refs : Transaction Digest _) := by
  have hset : ∀ refs, Preserves Keeps (setContentIds messageId refs : Transaction Digest _) := by
    intro refs
    induction refs with
    | nil => exact .pure _
    | cons ref refs ih => exact .bind (keeps_updateAttachments fun _ => rfl) fun _ => ih
  unfold claimAttachmentsForMessage
  split
  · exact .pure _
  · exact .pure _
  · exact .bind (.ensure _ _) fun _ => .bind (keeps_updateAttachments fun _ => rfl) fun _ =>
      .bind (.ensure _ _) fun _ => .bind (hset _) fun _ => .bind .get fun _ =>
        .bind (.ensure _ _) fun _ => .pure _

/-! ### Merges and adoptions -/

theorem keeps_preserveMergedConversationState (target : EmailConversation)
    (sources : List EmailConversation) :
    Preserves Keeps (preserveMergedConversationState target sources : Transaction Digest _) := by
  unfold preserveMergedConversationState
  split
  · exact .pure _
  · exact .bind (keeps_moveAliases _ _) fun _ =>
      .bind (.forM fun _ _ => keeps_createRoutingAlias _ _) fun _ =>
        .bind (keeps_updateConversation fun _ => le_rfl) fun _ => .pure _

theorem keeps_recordConversationMerges (config : Config) (target : Uuid) (sources : List Uuid)
    (occurredAt : Time) :
    Preserves Keeps
    (recordConversationMerges config target sources occurredAt : Transaction Digest _) :=
  .bind (.forM fun _ _ => .bind (keeps_appendConversationEvent _ _) fun _ => .pure _) fun _ =>
    .bind (keeps_appendConversationEvent _ _) fun _ => .pure _

theorem keeps_refreshLastMessageAt (id : Uuid) :
    Preserves Keeps (refreshLastMessageAt id : Transaction Digest _) := by
  refine .bind .get fun db => ?_
  split
  · exact .pure _
  · exact .bind (keeps_updateConversation fun _ => le_rfl) fun _ => .pure _

/-- A message of a conversation is not a direct one. -/
theorem EmailMessage.kind_of_conversationId {m : EmailMessage Digest} {c : Uuid}
    (hshape : m.kindShape = true) (h : m.conversationId = some c) : m.kind = .conversation := by
  unfold kindShape at hshape
  cases hkind : m.kind with
  | conversation => rfl
  | direct => simp [hkind, h] at hshape

/-- Messages move to a conversation that exists. -/
theorem keeps_moveMessages {target : Uuid} {sources : List Uuid} {db db' : Database Digest}
    {u : Unit} (htarget : (db.conversations.get? target).isSome)
    (h : moveMessages target sources db = .ok (u, db')) : Keeps db db' := by
  intro hs
  simp only [moveMessages, bind_eq_ok, updateMessages_eq_ok, pure_eq_ok] at h
  obtain ⟨_, _, ⟨-, rfl⟩, -, rfl⟩ := h
  refine hs.updateMessages (hs.resendEmailId.update fun _ => rfl) (fun _ => rfl) (fun _ => rfl)
    (fun m hm _ c hc => ?_) (fun m hm _ q hq => hs.parent m hm q hq) fun m hm hp => ?_
  · rwa [← Option.some.inj hc]
  · obtain ⟨c, hc, -⟩ := (Option.any_eq_true _ _).mp hp
    have hkind := EmailMessage.kind_of_conversationId (hs.shape m hm) hc
    simp [EmailMessage.kindShape, hkind]

/-- Messages of conversations get a parent that exists. -/
theorem keeps_adoptReplies {parentMessageId : Uuid} {p : EmailMessage Digest → Bool}
    {db db' : Database Digest} {u : Unit} (hparent : (db.messages.get? parentMessageId).isSome)
    (hp : ∀ m, p m = true → m.conversationId.isSome)
    (h : adoptReplies parentMessageId p db = .ok (u, db')) : Keeps db db' := by
  intro hs
  simp only [adoptReplies, bind_eq_ok, updateMessages_eq_ok, pure_eq_ok] at h
  obtain ⟨_, _, ⟨-, rfl⟩, -, rfl⟩ := h
  refine hs.updateMessages (hs.resendEmailId.update fun _ => rfl) (fun _ => rfl) (fun _ => rfl)
    (fun m hm _ c hc => hs.placed m hm c hc) (fun m hm _ q hq => ?_) fun m hm hpm => ?_
  · rwa [← Option.some.inj hq]
  · obtain ⟨c, hc⟩ := Option.isSome_iff_exists.mp (hp m hpm)
    have hkind := EmailMessage.kind_of_conversationId (hs.shape m hm) hc
    simp [EmailMessage.kindShape, hkind, hc]

/-! ### Deletion -/

/-- Deleting conversations with their messages. -/
theorem keeps_deleteConversations (now : Time) (ids : List Uuid) :
    Preserves Keeps (modify (deleteConversations now ids) : Transaction Digest _) := by
  refine .modify fun db hs => ?_
  set gone := fun m : EmailMessage Digest => m.conversationId.any ids.contains with hgone
  set goneIds := (db.messages.select gone).map EmailMessage.id with hgoneIds
  obtain ⟨n, tombstones, hn, heq, -⟩ := deleteAttachments_eq now
    (fun a => a.messageId.any goneIds.contains) db
  have hmessages : ∀ m' ∈ ((db.messages.delete gone).update
      (fun m => m.parentMessageId.any goneIds.contains) fun m =>
        { m with parentMessageId := none }),
      ∃ m ∈ db.messages, gone m = false ∧
        (m' = m ∨ m' = { m with parentMessageId := none }) ∧
        ∀ q, m'.parentMessageId = some q → m.parentMessageId = some q ∧ q ∉ goneIds := by
    intro m' hm'
    rw [Table.mem_update] at hm'
    obtain ⟨m, hm, rfl⟩ := hm'
    obtain ⟨hm, hg⟩ := Table.mem_delete.mp hm
    refine ⟨m, hm, hg, ?_, ?_⟩
    · split
      · exact .inr rfl
      · exact .inl rfl
    · intro q hq
      split at hq
      · cases hq
      next hnot => exact ⟨hq, by simpa [hq] using hnot⟩
  have hdistinct : ∀ {β : Type} {column : EmailMessage Digest → Option β}, db.Distinct column →
      (∀ m : EmailMessage Digest, column { m with parentMessageId := none } = column m) →
      (deleteConversations now ids db).Distinct column := by
    intro β column h hcol m' hm' k' hk' hsome heq'
    simp only [deleteConversations, ← hgone, ← hgoneIds, heq] at hm' hk'
    obtain ⟨m, hm, hgm, hmm, -⟩ := hmessages m' hm'
    obtain ⟨k, hk, hgk, hkk, -⟩ := hmessages k' hk'
    have hcm : column m' = column m := by rcases hmm with rfl | rfl; exacts [rfl, hcol m]
    have hck : column k' = column k := by rcases hkk with rfl | rfl; exacts [rfl, hcol k]
    have hmk : m = k := h m hm k hk (hcm ▸ hsome) (hcm.symm.trans (heq'.trans hck))
    refine Table.key_inj hm' hk' ?_
    have hidm : m'.id = m.id := by rcases hmm with rfl | rfl <;> rfl
    have hidk : k'.id = k.id := by rcases hkk with rfl | rfl <;> rfl
    rw [hidm, hidk, hmk]
  have hr := hdistinct hs.resendEmailId fun _ => rfl
  have hi := hdistinct hs.internetMessageId fun _ => rfl
  have hk := hdistinct hs.idempotencyKey fun _ => rfl
  simp only [deleteConversations, ← hgone, ← hgoneIds, heq] at hr hi hk ⊢
  exact
    { conversationId_lt := fun c h => (hs.conversationId_lt c (Table.mem_delete.mp h).1).trans_le hn
      messageId_lt := by
        intro m' hm'
        obtain ⟨m, hm, -, hmm, -⟩ := hmessages m' hm'
        have hid : m'.id = m.id := by rcases hmm with rfl | rfl <;> rfl
        exact (hid.trans_lt (hs.messageId_lt m hm)).trans_le hn
      aliasId_lt := fun a h => (hs.aliasId_lt a (Table.mem_delete.mp h).1).trans_le hn
      eventId_lt := fun e h => (hs.eventId_lt e h).trans_le hn
      deliveryId_lt := fun d h => (hs.deliveryId_lt d h).trans_le hn
      attachmentId_lt := fun a h => hs.attachments_le hn a (Table.mem_delete.mp h).1
      token := fun c hc d hd => hs.token c (Table.mem_delete.mp hc).1 d (Table.mem_delete.mp hd).1
      topic := fun c hc d hd => hs.topic c (Table.mem_delete.mp hc).1 d (Table.mem_delete.mp hd).1
      allowlist := fun c h => hs.allowlist c (Table.mem_delete.mp h).1
      logged := fun e h => ⟨(hs.logged e h).1.trans_le hn,
        fun c hc => (hs.logged e h).2 c (Table.mem_delete.mp hc).1⟩
      resendEmailId := hr
      internetMessageId := hi
      idempotencyKey := hk
      placed := by
        intro m' hm' c hc
        obtain ⟨m, hm, hgm, hmm, -⟩ := hmessages m' hm'
        have hcm : m.conversationId = some c := by rcases hmm with rfl | rfl <;> exact hc
        have hout : c ∉ ids := by simpa [hgone, hcm] using hgm
        obtain ⟨row, hrow⟩ := Option.isSome_iff_exists.mp (hs.placed m hm c hcm)
        rw [Table.get?_delete, hrow, Option.filter_some, Table.key_of_get? hrow]
        simp [hout]
      parent := by
        intro m' hm' q hq
        obtain ⟨m, hm, -, -, hparent⟩ := hmessages m' hm'
        obtain ⟨hmq, hq⟩ := hparent q hq
        obtain ⟨w, hw⟩ := Option.isSome_iff_exists.mp (hs.parent m hm q hmq)
        have hwg : gone w = false := by
          cases hg : gone w with
          | false => rfl
          | true =>
              refine absurd ?_ hq
              rw [hgoneIds, ← Table.key_of_get? hw]
              exact List.mem_map.mpr ⟨w, Table.mem_select.mpr ⟨Table.mem_of_get? hw, hg⟩, rfl⟩
        rw [Table.get?_update, Table.get?_delete, hw, Option.filter_some, hwg]
        simp
      shape := by
        intro m' hm'
        obtain ⟨m, hm, -, hmm, -⟩ := hmessages m' hm'
        have hshape := hs.shape m hm
        rcases hmm with rfl | rfl
        · exact hshape
        · unfold EmailMessage.kindShape at hshape ⊢
          cases hkind : m.kind with
          | conversation => simpa [hkind] using hshape
          | direct => simp_all }

end ResendConversation
