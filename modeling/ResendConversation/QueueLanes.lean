import ResendConversation.Queue

/-! # The queue through the lanes

Claims and finalizations keep the queue.  With a coherent queue the sweep of a claim removes
nothing, a claim covers its batch, and a finalization ends exactly the messages whose
entries it removes. -/

namespace ResendConversation

open Foundation Tx

variable {Digest : Type} {rt : Runtime Digest}

/-! ### Sweeps -/

theorem Database.Queued.not_settled {db : Database Digest} {id : Uuid} {b : Bool}
    (h : db.Queued rt id b) : (db.messages.get? id).any (fun m => m.state != .pending) = false := by
  obtain ⟨v, hv, hp, -⟩ := h
  obtain ⟨m, hm, rfl⟩ := Database.view?_eq_some.mp hv
  simp only [EmailMessage.sendView_state] at hp
  simp [hm, hp]

/-- The sweep of a claim finds no settled entry. -/
theorem Queue.swept_eq {db : Database Digest} (h : Queue rt db) :
    swept db = { db with nextId := db.nextId + 1 } := by
  have hdelete : db.outboxEntries.delete (fun e => e.batchId.isNone &&
      (db.messages.get? e.messageId).any fun m => m.state != .pending) = db.outboxEntries :=
    Table.delete_eq_self fun e he => by simp only [(h.entry e he).not_settled, Bool.and_false]
  simp only [swept, deleteSettledEntries, hdelete]

theorem Queue.sweptAttachments_eq {db : Database Digest} (h : Queue rt db) :
    sweptAttachments db = { db with nextId := db.nextId + 1 } := by
  have hdelete : db.attachmentOutboxEntries.delete (fun e =>
      (db.messages.get? e.messageId).any fun m => m.state != .pending) =
        db.attachmentOutboxEntries :=
    Table.delete_eq_self fun e he => (h.attachmentEntry e he).not_settled
  simp only [sweptAttachments, deleteSettledAttachmentEntries, hdelete]

/-- Drawing identifiers. -/
theorem background_nextId (db : Database Digest) {n : Uuid} (hn : db.nextId ≤ n) :
    Background db { db with nextId := n } :=
  .of_messages_eq hn rfl (.of_eq rfl) rfl rfl rfl

/-! ### The batch lane -/

/-- An update of the batch rows that keeps what the queue says of them. -/
theorem Queue.of_batches {db : Database Digest} (h : Queue rt db) {p : EmailOutboxBatch → Bool}
    {f : EmailOutboxBatch → EmailOutboxBatch} {keep : ∀ b, (f b).id = b.id} {n : Uuid}
    (hn : db.nextId ≤ n)
    (hf : ∀ b, (f b).firstAttemptAt = b.firstAttemptAt ∧ b.attemptCount ≤ (f b).attemptCount) :
    Queue rt { db with nextId := n, outboxBatches := db.outboxBatches.update p f keep } where
  entry := h.entry
  attachmentEntry := h.attachmentEntry
  waits := h.waits
  waitsAttachments := h.waitsAttachments
  batched := fun e he b hb => by simpa using h.batched e he b hb
  position := h.position
  batch := fun b' hb' => by
    rw [Table.mem_update] at hb'
    obtain ⟨b, hb, rfl⟩ := hb'
    obtain ⟨hlt, hfirst, hcount⟩ := h.batch b hb
    split
    · exact ⟨by rw [keep]; exact hlt.trans_le hn, by rw [(hf b).1]; exact hfirst,
        hcount.trans (hf b).2⟩
    · exact ⟨hlt.trans_le hn, hfirst, hcount⟩
  attempts := h.attempts

/-- The messages that a new batch takes. -/
theorem mem_unbatchedEntries {db : Database Digest} {limit : ℕ} {locked : List Uuid} {id : Uuid}
    (h : id ∈ unbatchedEntries db limit locked) :
    ∃ e ∈ db.outboxEntries, e.messageId = id ∧ e.batchId = none := by
  obtain ⟨e, he, rfl⟩ := List.mem_map.mp h
  obtain ⟨hmem, hp⟩ := Table.mem_selectSorted.mp (List.mem_of_mem_take he)
  simp only [Bool.and_eq_true, Option.isNone_iff_eq_none] at hp
  exact ⟨e, hmem, rfl, hp.1.1⟩

@[simp] theorem EmailOutboxEntry.assign_messageId (batchId : Uuid) (ids : List Uuid)
    (e : EmailOutboxEntry) : (e.assign batchId ids).messageId = e.messageId := rfl

/-- The entries of a new batch. -/
theorem mem_assigned {db : Database Digest} {ids : List Uuid} {batchId : Uuid}
    {e' : EmailOutboxEntry}
    (h : e' ∈ db.outboxEntries.update (fun e => ids.contains e.messageId && e.batchId.isNone)
      (EmailOutboxEntry.assign batchId ids)) :
    ∃ e ∈ db.outboxEntries, e'.messageId = e.messageId ∧
      (e' = e ∧ (e.messageId ∈ ids → e.batchId.isSome) ∨
        e.messageId ∈ ids ∧ e.batchId = none ∧ e'.batchId = some batchId ∧
          e'.batchPosition = some (ids.idxOf e.messageId)) := by
  obtain ⟨e, he, rfl⟩ := Table.mem_update.mp h
  refine ⟨e, he, ?_⟩
  split
  next hp =>
    simp only [Bool.and_eq_true, List.contains_iff_mem, Option.isNone_iff_eq_none] at hp
    exact ⟨rfl, .inr ⟨hp.1, hp.2, rfl, rfl⟩⟩
  next hp =>
    refine ⟨rfl, .inl ⟨rfl, fun hid => ?_⟩⟩
    simp only [Bool.and_eq_true, List.contains_iff_mem, Option.isNone_iff_eq_none, not_and] at hp
    exact Option.isSome_iff_ne_none.mpr (hp hid)

theorem Queue.of_batchClaim {db db' : Database Digest} {now : Time} {loaded : LoadedBatch Digest}
    (h : Queue rt db) (hc : BatchClaim now db db' loaded) : Queue rt db' := by
  cases hc with
  | leased found ready db_eq loaded =>
      subst db_eq
      rw [h.swept_eq]
      exact h.of_batches (Nat.le_succ _) fun b => ⟨rfl, Nat.le_succ _⟩
  | @created ids table limit locked entries nonempty inserted db_eq loaded =>
      subst db_eq
      rw [h.swept_eq]
      have hbatches : ∀ b, (db.outboxBatches.get? b).isSome → (table.get? b).isSome := by
        intro b hb
        rw [Table.get?_of_insert? inserted]
        split
        · rfl
        · exact hb
      have hold : ∀ e ∈ db.outboxEntries, ∀ b, e.batchId = some b → b < db.nextId := by
        intro e he b hb
        obtain ⟨row, hrow⟩ := Option.isSome_iff_exists.mp (h.batched e he b hb)
        exact Table.key_of_get? hrow ▸ (h.batch row (Table.mem_of_get? hrow)).1
      refine
        { entry := fun e' he' => ?_
          attachmentEntry := h.attachmentEntry
          waits := fun id hid => ?_
          waitsAttachments := h.waitsAttachments
          batched := fun e' he' b hb => ?_
          position := fun e₁ h₁ e₂ h₂ hsome hbatch hpos => ?_
          batch := fun b hb => ?_
          attempts := h.attempts }
      · obtain ⟨e, he, hid, -⟩ := mem_assigned he'
        rw [hid]
        exact h.entry e he
      · obtain ⟨e, he, rfl⟩ := h.waits id hid
        exact Table.exists_mem_update (EmailOutboxEntry.assign_messageId (db.nextId + 1) ids) he
      · obtain ⟨e, he, -, ⟨rfl, -⟩ | ⟨-, -, hbatch, -⟩⟩ := mem_assigned he'
        · exact hbatches b (h.batched e' he b hb)
        · rw [hbatch] at hb
          cases hb
          simp [Table.get?_of_insert? inserted, newBatch]
      · obtain ⟨f₁, hf₁, hid₁, hcase₁⟩ := mem_assigned h₁
        obtain ⟨f₂, hf₂, hid₂, hcase₂⟩ := mem_assigned h₂
        rcases hcase₁ with ⟨rfl, -⟩ | ⟨hin₁, -, hb₁, hp₁⟩
        · rcases hcase₂ with ⟨rfl, -⟩ | ⟨-, -, hb₂, -⟩
          · exact h.position e₁ hf₁ e₂ hf₂ hsome hbatch hpos
          · exact absurd (hold e₁ hf₁ _ (hbatch.symm.trans hb₂)) (Nat.lt_succ_self _).asymm
        · rcases hcase₂ with ⟨rfl, -⟩ | ⟨hin₂, -, -, hp₂⟩
          · exact absurd (hold e₂ hf₂ _ (hbatch.trans hb₁)) (Nat.lt_succ_self _).asymm
          · rw [hp₁, hp₂, Option.some.injEq] at hpos
            have hid : f₁.messageId = f₂.messageId := (List.idxOf_inj hin₁).mp hpos.symm
            exact Table.key_inj h₁ h₂ (by rw [hid₁, hid₂, hid])
      · rcases (Table.mem_insert? inserted).mp hb with hb | rfl
        · obtain ⟨hlt, hrest⟩ := h.batch b hb
          exact ⟨hlt.trans (Nat.lt_add_of_pos_right Nat.two_pos), hrest⟩
        · exact ⟨Nat.lt_succ_self _, rfl, le_rfl⟩

/-- A terminal decision ends its messages. -/
theorem BatchDecision.endView_state {batch : ClaimedBatch Digest} {decision : BatchDecision}
    (h : ∀ errorCode, decision ≠ .retry errorCode) (id : Uuid) (v : SendView Digest) :
    (decision.endView batch id v).state ≠ .pending ∧
      (decision.endView batch id v).state ≠ .received := by
  cases decision with
  | accept ids => simp [endView]
  | fail errorCode => simp [endView]
  | indeterminate detail => simp [endView]
  | retry errorCode => exact absurd rfl (h errorCode)

theorem ClaimedBatch.owned_iff {batch : ClaimedBatch Digest} {b : EmailOutboxBatch} :
    batch.owned b = true ↔ b.id = batch.id ∧ b.leaseToken = some batch.leaseToken := by
  simp [owned]

/-- The batch row of a worker that holds the lease. -/
theorem get?_of_owned {db : Database Digest} {batch : ClaimedBatch Digest}
    (h : ∃ b ∈ db.outboxBatches, batch.owned b = true) :
    (db.outboxBatches.get? batch.id).isSome := by
  obtain ⟨b, hb, ho⟩ := h
  rw [← (ClaimedBatch.owned_iff.mp ho).1, Table.mem_iff_get?.mp hb]
  rfl

theorem BatchFinalized.not_queued {batch : ClaimedBatch Digest} {decision : BatchDecision}
    {db db' : Database Digest} (hf : BatchFinalized batch decision db db') {id : Uuid}
    (hid : id ∈ batch.messageIds) (b : Bool) : ¬db'.Queued rt id b := by
  refine hf.toFrame.not_queued fun v _ hp => ?_
  rw [BatchDecision.apply] at hp
  split at hp
  next => exact (BatchDecision.endView_state hf.terminal id v).1 hp
  next hne => exact hne (by simp [hid, hp])

theorem BatchFinalized.queued_iff {batch : ClaimedBatch Digest} {decision : BatchDecision}
    {db db' : Database Digest} (hf : BatchFinalized batch decision db db') {id : Uuid}
    (hid : id ∉ batch.messageIds) (b : Bool) : db'.Queued rt id b ↔ db.Queued rt id b := by
  refine hf.toFrame.queued_iff (fun v _ => .inl ?_) b
  rw [BatchDecision.apply, if_neg (by simp [hid])]

theorem Queue.of_batchFinalized {batch : ClaimedBatch Digest} {decision : BatchDecision}
    {db db' : Database Digest} (hinj : Function.Injective rt.hashSendRequest) (h : Queue rt db)
    (hheld : BatchHeld db batch) (hf : BatchFinalized batch decision db db') : Queue rt db' := by
  have hrow := get?_of_owned hf.owned
  have hentries : ∀ e, e ∈ db'.outboxEntries ↔
      e ∈ db.outboxEntries ∧ e.batchId ≠ some batch.id := by
    intro e
    rw [hf.entries, Table.mem_delete]
    simp
  have hbatches : ∀ b, b ≠ batch.id → db'.outboxBatches.get? b = db.outboxBatches.get? b := by
    intro b hb
    rw [hf.batches, Table.get?_delete]
    cases hget : db.outboxBatches.get? b with
    | none => rfl
    | some row =>
        have hkey := Table.key_of_get? hget
        simp [ClaimedBatch.owned, hkey, hb]
  -- a message of the claim has its entry in the batch
  have hin : ∀ id ∈ batch.messageIds, ∀ b, db.Queued rt id b →
      ∃ e ∈ db.outboxEntries, e.messageId = id ∧ e.batchId = some batch.id := by
    rintro id hid b ⟨v, hv, -⟩
    exact hheld.holds hrow id hid (by rw [hv]; rfl)
  refine
    { entry := fun e he => ?_
      attachmentEntry := fun e he => ?_
      waits := fun id hid => ?_
      waitsAttachments := fun id hid => ?_
      batched := fun e he b hb => ?_
      position := fun e he e' he' => h.position e ((hentries e).mp he).1 e' ((hentries e').mp he').1
      batch := fun b hb => ?_
      attempts := fun e he => h.attempts e (hf.attachmentEntries ▸ he) }
  · obtain ⟨hold, hne⟩ := (hentries e).mp he
    have hq := h.entry e hold
    refine (hf.queued_iff (fun hid => ?_) _).mpr hq
    obtain ⟨e', he', hid', hbatch⟩ := hin _ hid _ hq
    exact hne (Table.key_inj hold he' hid'.symm ▸ hbatch)
  · have hq := h.attachmentEntry e (hf.attachmentEntries ▸ he)
    refine (hf.queued_iff (fun hid => ?_) _).mpr hq
    obtain ⟨e', he', hid', -⟩ := hin _ hid _ hq
    exact absurd (hq.lane_unique hinj (hid' ▸ h.entry e' he')) (by simp)
  · have hnot : id ∉ batch.messageIds := fun hmem => hf.not_queued hmem _ hid
    obtain ⟨e, he, rfl⟩ := h.waits id ((hf.queued_iff hnot _).mp hid)
    exact ⟨e, (hentries e).mpr ⟨he, fun hb => hnot (hheld.covers hrow e he hb)⟩, rfl⟩
  · have hnot : id ∉ batch.messageIds := fun hmem => hf.not_queued hmem _ hid
    rw [hf.attachmentEntries]
    exact h.waitsAttachments id ((hf.queued_iff hnot _).mp hid)
  · obtain ⟨hold, hne⟩ := (hentries e).mp he
    rw [hbatches b fun hb' => hne (hb' ▸ hb)]
    exact h.batched e hold b hb
  · rw [hf.batches, Table.mem_delete] at hb
    obtain ⟨hlt, hrest⟩ := h.batch b hb.1
    exact ⟨hlt.trans_le hf.nextId_le, hrest⟩

theorem Queue.of_batchRescheduled {batch : ClaimedBatch Digest} {db db' : Database Digest}
    (h : Queue rt db) (hr : BatchRescheduled batch db db') : Queue rt db' := by
  obtain ⟨now, errorCode, rfl⟩ := hr.db_eq
  exact h.of_batches le_rfl fun b => ⟨rfl, le_rfl⟩

/-! ### The attachment lane -/

/-- An update of the entries of the attachment lane that keeps what the queue says of them. -/
theorem Queue.of_attachmentEntries {db : Database Digest} (h : Queue rt db)
    {p : EmailAttachmentOutboxEntry → Bool}
    {f : EmailAttachmentOutboxEntry → EmailAttachmentOutboxEntry}
    {keep : ∀ e, (f e).messageId = e.messageId} {n : Uuid} (hn : db.nextId ≤ n)
    (hf : ∀ e ∈ db.attachmentOutboxEntries, p e = true →
      ((f e).attemptCount = 0 ↔ (f e).firstAttemptAt = none)) :
    Queue rt { db with
      nextId := n, attachmentOutboxEntries := db.attachmentOutboxEntries.update p f keep } where
  entry := h.entry
  attachmentEntry := fun e' he' => by
    rw [Table.mem_update] at he'
    obtain ⟨e, he, rfl⟩ := he'
    rw [Table.key_ite keep]
    exact h.attachmentEntry e he
  waits := h.waits
  waitsAttachments := fun id hid => by
    obtain ⟨e, he, rfl⟩ := h.waitsAttachments id hid
    exact Table.exists_mem_update keep he
  batched := h.batched
  position := h.position
  batch := fun b hb => by
    obtain ⟨hlt, hrest⟩ := h.batch b hb
    exact ⟨hlt.trans_le hn, hrest⟩
  attempts := fun e' he' => by
    rw [Table.mem_update] at he'
    obtain ⟨e, he, rfl⟩ := he'
    split
    next hp => exact hf e he hp
    next => exact h.attempts e he

theorem Queue.of_entryClaim {db db' : Database Digest} {now : Time} {entry : ClaimedEntry Digest}
    {e : EmailAttachmentOutboxEntry} (h : Queue rt db) (hc : EntryClaim now db db' entry e) :
    Queue rt db' := by
  rw [hc.db_eq, h.sweptAttachments_eq]
  exact h.of_attachmentEntries (Nat.le_succ _) fun e _ _ => by
    simp [EmailAttachmentOutboxEntry.lease]

/-- The states in which a worker of the attachment lane ends its message. -/
def EntryDecision.Proper : EntryDecision → Prop
  | .finalize state _ => state = .failed ∨ state = .indeterminate
  | _ => True

theorem EntryDecision.endView_state {decision : EntryDecision}
    (h : ∀ errorCode, decision ≠ .retry errorCode) (hp : decision.Proper) (v : SendView Digest) :
    (decision.endView v).state ≠ .pending ∧ (decision.endView v).state ≠ .received := by
  cases decision with
  | accept id => simp [endView]
  | finalize state detail => rcases hp with rfl | rfl <;> simp [endView]
  | retry errorCode => exact absurd rfl (h errorCode)

theorem decideEntryError_proper (now : Time) (entry : ClaimedEntry Digest) (error : SendError) :
    (decideEntryError now entry error).Proper := by
  unfold decideEntryError
  split_ifs <;> simp [EntryDecision.Proper]

theorem decideEntry_proper (now : Time) (entry : ClaimedEntry Digest) (observation : Observation) :
    (decideEntry now entry observation).Proper := by
  unfold decideEntry
  cases sendResult observation with
  | ok id => trivial
  | error error => exact decideEntryError_proper now entry error

theorem ClaimedEntry.owned_iff {entry : ClaimedEntry Digest} {e : EmailAttachmentOutboxEntry} :
    entry.owned e = true ↔ e.messageId = entry.message.id ∧
      e.leaseToken = some entry.leaseToken := by
  simp [owned]

theorem EntryFinalized.not_queued {entry : ClaimedEntry Digest} {decision : EntryDecision}
    {db db' : Database Digest} (hf : EntryFinalized entry decision db db') (hp : decision.Proper)
    (b : Bool) : ¬db'.Queued rt entry.message.id b := by
  refine hf.toFrame.not_queued fun v _ hpending => ?_
  rw [EntryDecision.apply] at hpending
  split at hpending
  next => exact (EntryDecision.endView_state hf.terminal hp v).1 hpending
  next hne => exact hne (by simp [hpending])

theorem EntryFinalized.queued_iff {entry : ClaimedEntry Digest} {decision : EntryDecision}
    {db db' : Database Digest} (hf : EntryFinalized entry decision db db') {id : Uuid}
    (hid : id ≠ entry.message.id) (b : Bool) : db'.Queued rt id b ↔ db.Queued rt id b := by
  refine hf.toFrame.queued_iff (fun v _ => .inl ?_) b
  rw [EntryDecision.apply, if_neg (by simp [hid])]

theorem Queue.of_entryFinalized {entry : ClaimedEntry Digest} {decision : EntryDecision}
    {db db' : Database Digest} (hinj : Function.Injective rt.hashSendRequest) (h : Queue rt db)
    (hp : decision.Proper) (hf : EntryFinalized entry decision db db') : Queue rt db' := by
  obtain ⟨own, hown, ho⟩ := hf.owned
  obtain ⟨hid, -⟩ := ClaimedEntry.owned_iff.mp ho
  have hentries : ∀ e, e ∈ db'.attachmentOutboxEntries ↔
      e ∈ db.attachmentOutboxEntries ∧ e.messageId ≠ entry.message.id := by
    intro e
    rw [hf.attachmentEntries, Table.mem_delete]
    constructor
    · rintro ⟨he, hne⟩
      refine ⟨he, fun hid' => ?_⟩
      rw [Table.key_inj he hown (hid'.trans hid.symm), ho] at hne
      cases hne
    · rintro ⟨he, hne⟩
      exact ⟨he, by simp [ClaimedEntry.owned, hne]⟩
  refine
    { entry := fun e he => ?_
      attachmentEntry := fun e he => ?_
      waits := fun id hid' => ?_
      waitsAttachments := fun id hid' => ?_
      batched := by rw [hf.entries, hf.batches]; exact h.batched
      position := by rw [hf.entries]; exact h.position
      batch := fun b hb => ?_
      attempts := fun e he => h.attempts e ((hentries e).mp he).1 }
  · have hq := h.entry e (hf.entries ▸ he)
    refine (hf.queued_iff (fun hid' => ?_) _).mpr hq
    rw [hid', ← hid] at hq
    exact absurd (hq.lane_unique hinj (h.attachmentEntry own hown)) (by simp)
  · obtain ⟨hold, hne⟩ := (hentries e).mp he
    exact (hf.queued_iff hne _).mpr (h.attachmentEntry e hold)
  · have hne : id ≠ entry.message.id := by
      rintro rfl
      exact hf.not_queued hp _ hid'
    rw [hf.entries]
    exact h.waits id ((hf.queued_iff hne _).mp hid')
  · have hne : id ≠ entry.message.id := by
      rintro rfl
      exact hf.not_queued hp _ hid'
    obtain ⟨e, he, rfl⟩ := h.waitsAttachments id ((hf.queued_iff hne _).mp hid')
    exact ⟨e, (hentries e).mpr ⟨he, hne⟩, rfl⟩
  · obtain ⟨hlt, hrest⟩ := h.batch b (hf.batches ▸ hb)
    exact ⟨hlt.trans_le hf.nextId_le, hrest⟩

theorem Queue.of_entryRescheduled {entry : ClaimedEntry Digest} {db db' : Database Digest}
    (h : Queue rt db) (hr : EntryRescheduled entry db db') : Queue rt db' := by
  obtain ⟨now, errorCode, rfl⟩ := hr.db_eq
  exact h.of_attachmentEntries le_rfl fun e he _ => h.attempts e he

end ResendConversation
