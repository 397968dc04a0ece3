import ResendConversation.Origins

/-! # The queue

The outbox tables against the stored messages: a pending queued message has exactly one
entry, in the lane that its request fixed, and an entry always belongs to such a message.
`Queue` is preserved by every transaction of the service; the finalizations need that the
worker's claim still covers its batch (`BatchHeld`). -/

namespace ResendConversation

open Foundation Tx

variable {Digest : Type} {rt : Runtime Digest}

/-- A pending message that was queued with or without attachments. -/
def Database.Queued (rt : Runtime Digest) (db : Database Digest) (id : Uuid) (attachments : Bool) :
    Prop :=
  ∃ v, db.view? id = some v ∧ v.state = .pending ∧ ∃ request : SendRequest,
    v.requestHash = some (rt.hashSendRequest request) ∧ request.queued = true ∧
      request.hasAttachments = attachments

/-- The outbox tables. -/
structure Queue (rt : Runtime Digest) (db : Database Digest) : Prop where
  entry : ∀ e ∈ db.outboxEntries, db.Queued rt e.messageId false
  attachmentEntry : ∀ e ∈ db.attachmentOutboxEntries, db.Queued rt e.messageId true
  waits : ∀ id, db.Queued rt id false → ∃ e ∈ db.outboxEntries, e.messageId = id
  waitsAttachments : ∀ id, db.Queued rt id true → ∃ e ∈ db.attachmentOutboxEntries, e.messageId = id
  batched : ∀ e ∈ db.outboxEntries, ∀ b, e.batchId = some b → (db.outboxBatches.get? b).isSome
  position : ∀ e ∈ db.outboxEntries, ∀ e' ∈ db.outboxEntries, e.batchId.isSome →
    e'.batchId = e.batchId → e'.batchPosition = e.batchPosition → e = e'
  batch : ∀ b ∈ db.outboxBatches, b.id < db.nextId ∧ b.firstAttemptAt.isSome ∧ 1 ≤ b.attemptCount
  attempts : ∀ e ∈ db.attachmentOutboxEntries, e.attemptCount = 0 ↔ e.firstAttemptAt = none

/-- The batch of a claim, as long as its row exists: its entries are the claimed messages
that still exist. -/
structure BatchHeld (db : Database Digest) (batch : ClaimedBatch Digest) : Prop where
  id_lt : batch.id < db.nextId
  ids_lt : ∀ id ∈ batch.messageIds, id < db.nextId
  nodup : batch.messageIds.Nodup
  covers : (db.outboxBatches.get? batch.id).isSome → ∀ e ∈ db.outboxEntries,
    e.batchId = some batch.id → e.messageId ∈ batch.messageIds
  holds : (db.outboxBatches.get? batch.id).isSome → ∀ id ∈ batch.messageIds, (db.view? id).isSome →
    ∃ e ∈ db.outboxEntries, e.messageId = id ∧ e.batchId = some batch.id

/-! ### Queued messages -/

/-- The lane of a queued message is fixed by its request. -/
theorem Database.Queued.lane_unique (hinj : Function.Injective rt.hashSendRequest)
    {db : Database Digest} {id : Uuid} {b b' : Bool} (h : db.Queued rt id b)
    (h' : db.Queued rt id b') :
    b = b' := by
  obtain ⟨v, hv, -, r, hr, -, rfl⟩ := h
  obtain ⟨v', hv', -, r', hr', -, rfl⟩ := h'
  rw [hv] at hv'
  cases hv'
  rw [hr] at hr'
  rw [hinj (Option.some.inj hr')]

/-- A message of which every version before a transaction is the one after it. -/
theorem Database.queued_congr {db db' : Database Digest} {id : Uuid}
    (h : ∀ v, db.view? id = some v ∧ v.state = .pending ∧ v.requestHash.isSome ↔
      db'.view? id = some v ∧ v.state = .pending ∧ v.requestHash.isSome) (b : Bool) :
    db.Queued rt id b ↔ db'.Queued rt id b := by
  constructor
  · rintro ⟨v, hv, hp, r, hr, hq⟩
    obtain ⟨hv', -, -⟩ := (h v).mp ⟨hv, hp, by rw [hr]; rfl⟩
    exact ⟨v, hv', hp, r, hr, hq⟩
  · rintro ⟨v, hv, hp, r, hr, hq⟩
    obtain ⟨hv', -, -⟩ := (h v).mpr ⟨hv, hp, by rw [hr]; rfl⟩
    exact ⟨v, hv', hp, r, hr, hq⟩

/-- A frame that leaves the pending version of a message alone. -/
theorem Frame.queued_iff {φ : Uuid → SendView Digest → SendView Digest} {db db' : Database Digest}
    (h : Frame φ db db') {id : Uuid}
    (hφ : ∀ v, db.view? id = some v →
      (φ id v = v ∨ (v.state ≠ .pending ∧ (φ id v).state ≠ .pending))) (b : Bool) :
    db'.Queued rt id b ↔ db.Queued rt id b := by
  refine (Database.queued_congr (fun v => ?_) b).symm
  constructor
  · rintro ⟨hv, hp, hr⟩
    rcases hφ v hv with heq | ⟨hne, -⟩
    · exact ⟨heq ▸ h.view id v hv, hp, hr⟩
    · exact absurd hp hne
  · rintro ⟨hv, hp, hr⟩
    cases hu : db.view? id with
    | none =>
        obtain ⟨-, -, hin⟩ := h.fresh id v hv hu
        rw [hin.requestHash] at hr
        cases hr
    | some u =>
        have hφu := h.view id u hu
        rw [hv] at hφu
        cases hφu
        rcases hφ u hu with heq | ⟨-, hne⟩
        · rw [heq] at hp hr ⊢
          exact ⟨rfl, hp, hr⟩
        · exact absurd hp hne

/-- A frame that ends a message. -/
theorem Frame.not_queued {φ : Uuid → SendView Digest → SendView Digest} {db db' : Database Digest}
    (h : Frame φ db db') {id : Uuid} {b : Bool}
    (hφ : ∀ v, db.view? id = some v → (φ id v).state ≠ .pending) : ¬db'.Queued rt id b := by
  rintro ⟨v, hv, hp, r, hr, -⟩
  cases hu : db.view? id with
  | none =>
      obtain ⟨-, -, hin⟩ := h.fresh id v hv hu
      rw [hin.requestHash] at hr
      cases hr
  | some u =>
      have hφu := h.view id u hu
      rw [hv] at hφu
      cases hφu
      exact hφ u hu hp

/-! ### Transactions that leave the outbox tables alone -/

theorem Queue.of_same_tables {db db' : Database Digest} (h : Queue rt db)
    (hq : ∀ id b, db'.Queued rt id b ↔ db.Queued rt id b) (hn : db.nextId ≤ db'.nextId)
    (hb : db'.outboxBatches = db.outboxBatches) (he : db'.outboxEntries = db.outboxEntries)
    (ha : db'.attachmentOutboxEntries = db.attachmentOutboxEntries) : Queue rt db' where
  entry := fun e hm => (hq _ _).mpr (h.entry e (he ▸ hm))
  attachmentEntry := fun e hm => (hq _ _).mpr (h.attachmentEntry e (ha ▸ hm))
  waits := fun id hid => he ▸ h.waits id ((hq id false).mp hid)
  waitsAttachments := fun id hid => ha ▸ h.waitsAttachments id ((hq id true).mp hid)
  batched := fun e hm b hbatch => hb ▸ h.batched e (he ▸ hm) b hbatch
  position := fun e hm e' hm' => h.position e (he ▸ hm) e' (he ▸ hm')
  batch := fun b hm => by
    obtain ⟨hlt, hfirst, hcount⟩ := h.batch b (hb ▸ hm)
    exact ⟨hlt.trans_le hn, hfirst, hcount⟩
  attempts := fun e hm => h.attempts e (ha ▸ hm)

theorem Queue.of_background {db db' : Database Digest} (h : Queue rt db) (hb : Background db db') :
    Queue rt db' :=
  h.of_same_tables (fun _ b => hb.queued_iff (fun _ _ => .inl rfl) b) hb.nextId_le
    hb.batches hb.entries
    hb.attachmentEntries

/-- A message that is not queued is rewritten. -/
theorem Queue.of_rewrite {db db' : Database Digest} {id : Uuid}
    {f : SendView Digest → SendView Digest} (h : Queue rt db) (hr : Rewrite (onMessage id f) db db')
    (hsync : ∀ v, db.view? id = some v → ∀ request : SendRequest,
      v.requestHash = some (rt.hashSendRequest request) → request.queued = false)
    (hf : ∀ v, db.view? id = some v → (f v).requestHash = v.requestHash) : Queue rt db' := by
  refine h.of_same_tables (fun k b => ?_) hr.nextId_le hr.batches hr.entries hr.attachmentEntries
  by_cases hk : k = id
  · subst hk
    constructor
    · rintro ⟨v, hv, -, r, hreq, hq, -⟩
      cases hu : db.view? k with
      | none =>
          obtain ⟨-, -, hin⟩ := hr.fresh k v hv hu
          rw [hin.requestHash] at hreq
          cases hreq
      | some u =>
          have hu' := hr.view k u hu
          rw [hv, onMessage, if_pos rfl] at hu'
          cases hu'
          rw [hf u hu] at hreq
          rw [hsync u hu r hreq] at hq
          cases hq
    · rintro ⟨v, hv, -, r, hreq, hq, -⟩
      rw [hsync v hv r hreq] at hq
      cases hq
  · exact hr.queued_iff (fun v _ => .inl (by rw [onMessage, if_neg hk])) b

/-! ### Storing and deleting -/

theorem Queue.of_stored {ctx : SendContext Digest} {db db' : Database Digest} {id : Uuid}
    {v : SendView Digest} (hinj : Function.Injective rt.hashSendRequest) (h : Queue rt db)
    (ho : Origins rt db) (hs : Stored ctx db db' id v)
    (hrt : ctx.requestHash = rt.hashSendRequest ctx.request) : Queue rt db' := by
  have hnone : db.view? id = none := by
    cases hid : db.view? id with
    | none => rfl
    | some w => exact absurd ((ho.origin id w hid).1.trans_le hs.nextId_le) (lt_irrefl id)
  have hold : ∀ k, k ≠ id → ∀ b, db'.Queued rt k b ↔ db.Queued rt k b := by
    intro k hk b
    refine (Database.queued_congr (fun w => ?_) b).symm
    constructor
    · rintro ⟨hw, hp, hr⟩
      exact ⟨hs.view k w hw, hp, hr⟩
    · rintro ⟨hw, hp, hr⟩
      cases hu : db.view? k with
      | some u =>
          obtain rfl : w = u := Option.some.inj (hw.symm.trans (hs.view k u hu))
          exact ⟨rfl, hp, hr⟩
      | none =>
          rcases hs.fresh k w hw hu with rfl | ⟨-, -, hin⟩
          · exact absurd rfl hk
          · rw [hin.requestHash] at hr
            cases hr
  have hnew : ∀ b, db'.Queued rt id b ↔
      ctx.request.queued = true ∧ ctx.request.hasAttachments = b := by
    intro b
    constructor
    · rintro ⟨w, hw, -, r, hr, hq, hb⟩
      rw [hs.stored] at hw
      cases hw
      rw [hs.intended.requestHash, hrt] at hr
      rw [hinj (Option.some.inj hr)]
      exact ⟨hq, hb⟩
    · rintro ⟨hq, hb⟩
      exact ⟨v, hs.stored, hs.intended.state, ctx.request,
        hs.intended.requestHash.trans (by rw [hrt]), hq, hb⟩
  have hne : ∀ k b, db.Queued rt k b → k ≠ id := by
    rintro k b ⟨w, hw, -⟩ rfl
    rw [hnone] at hw
    cases hw
  refine
    { entry := fun e he => ?_
      attachmentEntry := fun e he => ?_
      waits := fun k hk => ?_
      waitsAttachments := fun k hk => ?_
      batched := fun e he b hb => ?_
      position := fun e he e' he' hsome hbatch hpos => ?_
      batch := fun b hb => ?_
      attempts := fun e he => ?_ }
  · rcases (hs.entries e).mp he with he | ⟨hq, ha, rfl⟩
    · have := h.entry e he
      exact (hold _ (hne _ _ this) _).mpr this
    · exact (hnew false).mpr ⟨hq, ha⟩
  · rcases (hs.attachmentEntries e).mp he with he | ⟨hq, ha, rfl⟩
    · have := h.attachmentEntry e he
      exact (hold _ (hne _ _ this) _).mpr this
    · exact (hnew true).mpr ⟨hq, ha⟩
  · by_cases hid : k = id
    · subst hid
      obtain ⟨hq, ha⟩ := (hnew false).mp hk
      exact ⟨_, (hs.entries _).mpr (.inr ⟨hq, ha, rfl⟩), rfl⟩
    · obtain ⟨e, he, hek⟩ := h.waits k ((hold k hid _).mp hk)
      exact ⟨e, (hs.entries e).mpr (.inl he), hek⟩
  · by_cases hid : k = id
    · subst hid
      obtain ⟨hq, ha⟩ := (hnew true).mp hk
      exact ⟨_, (hs.attachmentEntries _).mpr (.inr ⟨hq, ha, rfl⟩), rfl⟩
    · obtain ⟨e, he, hek⟩ := h.waitsAttachments k ((hold k hid _).mp hk)
      exact ⟨e, (hs.attachmentEntries e).mpr (.inl he), hek⟩
  · rcases (hs.entries e).mp he with he | ⟨-, -, rfl⟩
    · exact hs.batches ▸ h.batched e he b hb
    · cases hb
  · rcases (hs.entries e).mp he with he | ⟨-, -, rfl⟩
    · rcases (hs.entries e').mp he' with he' | ⟨-, -, rfl⟩
      · exact h.position e he e' he' hsome hbatch hpos
      · rw [← hbatch] at hsome
        cases hsome
    · cases hsome
  · obtain ⟨hlt, hrest⟩ := h.batch b (hs.batches ▸ hb)
    exact ⟨hlt.trans_le (hs.nextId_le.trans hs.lt_nextId.le), hrest⟩
  · rcases (hs.attachmentEntries e).mp he with he | ⟨-, -, rfl⟩
    · exact h.attempts e he
    · simp

theorem Queue.of_deleted {c : Uuid} {db db' : Database Digest} (h : Queue rt db)
    (hd : ConversationDeleted c db db') : Queue rt db' := by
  have hq : ∀ id b, db'.Queued rt id b ↔ db.Queued rt id b ∧
      ∀ m, db.messages.get? id = some m → m.conversationId ≠ some c := by
    intro id b
    constructor
    · rintro ⟨v, hv, hrest⟩
      obtain ⟨m, hm, hc, rfl⟩ := hd.view_of_view hv
      refine ⟨⟨m.sendView, Database.view?_of_get? hm, hrest⟩, fun m' hm' => ?_⟩
      rw [hm] at hm'
      cases hm'
      exact hc
    · rintro ⟨⟨v, hv, hrest⟩, hc⟩
      obtain ⟨m, hm, rfl⟩ := Database.view?_eq_some.mp hv
      obtain ⟨m', hm', hview, -⟩ := hd.kept id m hm (hc m hm)
      exact ⟨m.sendView, Database.view?_eq_some.mpr ⟨m', hm', hview⟩, hrest⟩
  refine
    { entry := fun e he => ?_
      attachmentEntry := fun e he => ?_
      waits := fun k hk => ?_
      waitsAttachments := fun k hk => ?_
      batched := fun e he => hd.batches ▸ h.batched e ((hd.entries e).mp he).1
      position := fun e he e' he' =>
        h.position e ((hd.entries e).mp he).1 e' ((hd.entries e').mp he').1
      batch := fun b hb => ?_
      attempts := fun e he => h.attempts e ((hd.attachmentEntries e).mp he).1 }
  · obtain ⟨hold, hc⟩ := (hd.entries e).mp he
    exact (hq _ _).mpr ⟨h.entry e hold, hc⟩
  · obtain ⟨hold, hc⟩ := (hd.attachmentEntries e).mp he
    exact (hq _ _).mpr ⟨h.attachmentEntry e hold, hc⟩
  · obtain ⟨hold, hc⟩ := (hq _ _).mp hk
    obtain ⟨e, he, rfl⟩ := h.waits k hold
    exact ⟨e, (hd.entries e).mpr ⟨he, hc⟩, rfl⟩
  · obtain ⟨hold, hc⟩ := (hq _ _).mp hk
    obtain ⟨e, he, rfl⟩ := h.waitsAttachments k hold
    exact ⟨e, (hd.attachmentEntries e).mpr ⟨he, hc⟩, rfl⟩
  · obtain ⟨hlt, hrest⟩ := h.batch b (hd.batches ▸ hb)
    exact ⟨hlt.trans_le hd.nextId_le, hrest⟩

end ResendConversation
