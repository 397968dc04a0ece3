import ResendConversation.AttachmentOutbox
import ResendConversation.Background

/-! # The transactions of the outbox lanes

What a committed claim or finalization does, for both lanes.  A claim sweeps the settled
entries away and puts a fresh token on one row (`BatchClaim`, `EntryClaim`); a terminal
finalization ends the pending messages of its claim and removes the claimed rows, and says
that its worker's token was on them (`BatchFinalized`, `EntryFinalized`). -/

namespace ResendConversation

open Foundation Tx

variable {Digest : Type}

/-! ### Updates of messages -/

/-- An update of the messages selected by `p` that changes their views by `φ`. -/
theorem Frame.of_update {db : Database Digest} {p : EmailMessage Digest → Bool}
    {f : EmailMessage Digest → EmailMessage Digest} {keep : ∀ m, (f m).id = m.id}
    {φ : Uuid → SendView Digest → SendView Digest}
    (hf : ∀ m, p m = true → (f m).sendView = φ m.id m.sendView)
    (hp : ∀ m, p m = false → φ m.id m.sendView = m.sendView)
    (hthread : ∀ m, (f m).conversationId = m.conversationId) :
    Frame φ db { db with messages := db.messages.update p f keep } where
  nextId_le := le_rfl
  view := by
    intro id v h
    obtain ⟨m, hm, rfl⟩ := Database.view?_eq_some.mp h
    have hid := Table.key_of_get? hm
    refine Database.view?_eq_some.mpr ⟨if p m then f m else m, by simp [hm], ?_⟩
    split
    next hpm => rw [hf m hpm, hid]
    next hpm => rw [← hid, hp m (by simpa using hpm)]
  fresh := by
    intro id v h h'
    simp only [Database.view?_eq_none] at h'
    simp [Database.view?, h'] at h
  conversations := .of_eq rfl
  threads := by
    intro id m m' hm hm'
    simp only [Table.get?_update, hm, Option.map_some, Option.some.injEq] at hm'
    subst hm'
    split
    · exact .inl (hthread m)
    · exact .inl rfl

/-- A frame depends on the messages and the conversations only. -/
theorem Frame.of_tables {φ : Uuid → SendView Digest → SendView Digest} {a b c : Database Digest}
    (h : Frame φ a b) (hn : c.nextId = b.nextId) (hm : c.messages = b.messages)
    (hc : c.conversations = b.conversations) : Frame φ a c where
  nextId_le := hn ▸ h.nextId_le
  view := fun id v hv => by simpa [Database.view?, hm] using h.view id v hv
  fresh := fun id v hv hnone => by
    rw [hn]
    exact h.fresh id v (by simpa [Database.view?, hm] using hv) hnone
  conversations := h.conversations.trans h.nextId_le hn.ge (.of_eq hc)
  threads := fun id m m' hm₁ hm₂ => h.threads id m m' hm₁ (hm ▸ hm₂)

/-- The file frame of an update of messages followed by a quiet transaction. -/
theorem Passive.files_after {a b c : Database Digest} (h : Passive b c) (hn : b.nextId = a.nextId)
    (ha : b.attachments = a.attachments) (ht : b.tombstones = a.tombstones) : FileFrame a c :=
  (FileFrame.of_eq hn.ge ha ht).trans hn.ge h.nextId_le h.files

/-! ### The batch lane: claim -/

/-- The database of a claim after its sweep. -/
def swept (db : Database Digest) : Database Digest :=
  deleteSettledEntries { db with nextId := db.nextId + 1 }

/-- The batch as the claim transaction loaded it. -/
def Loaded (db : Database Digest) (batchId : Uuid) (loaded : LoadedBatch Digest) : Prop :=
  db.outboxBatches.get? batchId = some loaded.batch ∧
    loaded.messages = (batchEntries db batchId).filterMap fun e => db.messages.get? e.messageId

/-- A committed claim of a batch under the token `db.nextId`. -/
inductive BatchClaim (now : Time) (db db' : Database Digest) (loaded : LoadedBatch Digest) : Prop
  | leased {b : EmailOutboxBatch} (found : b ∈ db.outboxBatches) (ready : b.ready now = true)
      (db_eq : db' = { swept db with
        outboxBatches := db.outboxBatches.update (fun r => r.id == b.id)
          (EmailOutboxBatch.lease now db.nextId) })
      (loaded : Loaded db' b.id loaded)
  | created {ids : List Uuid} {table : Table EmailOutboxBatch.id} {limit : ℕ} {locked : List Uuid}
      (entries : ids = unbatchedEntries (swept db) limit locked) (nonempty : ids ≠ [])
      (inserted : db.outboxBatches.insert? (newBatch now db.nextId (db.nextId + 1)) = some table)
      (db_eq : db' = { swept db with
        nextId := db.nextId + 2
        outboxBatches := table
        outboxEntries := (swept db).outboxEntries.update
          (fun e => ids.contains e.messageId && e.batchId.isNone)
          (EmailOutboxEntry.assign (db.nextId + 1) ids) })
      (loaded : Loaded db' (db.nextId + 1) loaded)

theorem loadBatch_eq_ok {batchId : Uuid} {db db' : Database Digest} {loaded : LoadedBatch Digest}
    (h : loadBatch batchId db = .ok (loaded, db')) : db' = db ∧ Loaded db batchId loaded := by
  simp only [loadBatch, bind_eq_ok, get_eq_ok, orThrow_eq_ok, pure_eq_ok] at h
  obtain ⟨_, _, ⟨rfl, rfl⟩, b, _, ⟨hb, rfl⟩, rfl, rfl⟩ := h
  exact ⟨rfl, hb, rfl⟩

theorem claimTransaction_eq_ok {now : Time} {limit : ℕ} {locked : List Uuid}
    {db db' : Database Digest} {claim : Option (Uuid × LoadedBatch Digest)}
    (h : claimTransaction now limit locked db = .ok (claim, db')) :
    (claim = none ∧ db' = swept db) ∨
      ∃ loaded, claim = some (db.nextId, loaded) ∧ BatchClaim now db db' loaded := by
  simp only [claimTransaction, bind_eq_ok, freshId_eq_ok, modify_eq_ok, get_eq_ok] at h
  obtain ⟨_, _, ⟨rfl, rfl⟩, _, _, rfl, _, _, ⟨rfl, rfl⟩, h⟩ := h
  change _ = Except.ok (claim, db') at h
  cases hready : readyBatch (swept db) now locked with
  | some b =>
      rw [show readyBatch (deleteSettledEntries _) now locked = some b from hready] at h
      simp only [bind_eq_ok, leaseBatch, modify_eq_ok, pure_eq_ok] at h
      obtain ⟨_, _, rfl, loaded, _, hload, rfl, rfl⟩ := h
      obtain ⟨rfl, hl⟩ := loadBatch_eq_ok hload
      have hmem := Table.mem_selectSorted.mp (List.mem_of_head? hready)
      simp only [Bool.and_eq_true] at hmem
      exact .inr ⟨loaded, rfl, .leased hmem.1 hmem.2.1 rfl hl⟩
  | none =>
      rw [show readyBatch (deleteSettledEntries _) now locked = none from hready] at h
      cases hids : unbatchedEntries (swept db) limit locked with
      | nil =>
          rw [show unbatchedEntries (deleteSettledEntries _) limit locked = [] from hids] at h
          obtain ⟨rfl, rfl⟩ := pure_eq_ok.mp h
          exact .inl ⟨rfl, rfl⟩
      | cons id ids =>
          rw [show unbatchedEntries (deleteSettledEntries _) limit locked =
            id :: ids from hids] at h
          simp only [bind_eq_ok, createBatch, freshId_eq_ok, insertRow_eq_ok, modify_eq_ok,
            pure_eq_ok] at h
          obtain ⟨_, _, ⟨_, _, ⟨rfl, rfl⟩, _, _, ⟨table, ht, rfl⟩, _, _, rfl, rfl, rfl⟩,
              loaded, _, hload,
            rfl, rfl⟩ := h
          obtain ⟨rfl, hl⟩ := loadBatch_eq_ok hload
          exact .inr ⟨loaded, rfl, .created hids.symm (List.cons_ne_nil id ids) ht rfl hl⟩

/-! ### The batch lane: finalization -/

/-- The view of a message whose attempt is decided. -/
def BatchDecision.endView (batch : ClaimedBatch Digest) :
    BatchDecision → Uuid → SendView Digest → SendView Digest
  | .accept ids, id, v => { v with state := .accepted, resendEmailId := acceptedId batch ids id }
  | .fail _, _, v => { v with state := .failed }
  | .indeterminate _, _, v => { v with state := .indeterminate }
  | .retry _, _, v => v

/-- The view of a message of the claim after its finalization. -/
def BatchDecision.apply (batch : ClaimedBatch Digest) (decision : BatchDecision) (id : Uuid)
    (v : SendView Digest) : SendView Digest :=
  if batch.messageIds.contains id && v.state == .pending then decision.endView batch id v else v

/-- A committed terminal finalization. -/
structure BatchFinalized (batch : ClaimedBatch Digest) (decision : BatchDecision)
    (db db' : Database Digest) : Prop extends Frame (decision.apply batch) db db' where
  terminal : ∀ errorCode, decision ≠ .retry errorCode
  owned : ∃ b ∈ db.outboxBatches, batch.owned b = true
  batches : db'.outboxBatches = db.outboxBatches.delete batch.owned
  entries : db'.outboxEntries = db.outboxEntries.delete fun e => e.batchId == some batch.id
  attachmentEntries : db'.attachmentOutboxEntries = db.attachmentOutboxEntries
  files : FileFrame db db'

theorem assertLeaseOwner_eq_ok {batch : ClaimedBatch Digest} {db db' : Database Digest} {u : Unit}
    (h : assertLeaseOwner batch db = .ok (u, db')) :
    db' = db ∧ ∃ b ∈ db.outboxBatches, batch.owned b = true := by
  simp only [assertLeaseOwner, bind_eq_ok, get_eq_ok, ensure_eq_ok] at h
  obtain ⟨_, _, ⟨rfl, rfl⟩, howned, rfl⟩ := h
  exact ⟨rfl, List.any_eq_true.mp howned⟩

theorem deleteOwnedBatch_eq_ok {batch : ClaimedBatch Digest} {db db' : Database Digest} {u : Unit}
    (h : deleteOwnedBatch batch db = .ok (u, db')) :
    db' = { db with
      outboxBatches := db.outboxBatches.delete batch.owned
      outboxEntries := db.outboxEntries.delete fun e => e.batchId == some batch.id } := by
  simp only [deleteOwnedBatch, bind_eq_ok, get_eq_ok, ensure_eq_ok, modify_eq_ok] at h
  obtain ⟨_, _, ⟨rfl, rfl⟩, _, _, ⟨-, rfl⟩, rfl⟩ := h
  rfl

/-- The deletion of the claimed rows completes a finalization. -/
theorem BatchFinalized.of_delete {batch : ClaimedBatch Digest} {decision : BatchDecision}
    {db db₁ db' : Database Digest} {u : Unit} (h : deleteOwnedBatch batch db₁ = .ok (u, db'))
    (hterminal : ∀ errorCode, decision ≠ .retry errorCode)
    (howned : ∃ b ∈ db.outboxBatches, batch.owned b = true)
    (hframe : Frame (decision.apply batch) db db₁) (hb : db₁.outboxBatches = db.outboxBatches)
    (he : db₁.outboxEntries = db.outboxEntries)
    (ha : db₁.attachmentOutboxEntries = db.attachmentOutboxEntries) (hfiles : FileFrame db db₁) :
    BatchFinalized batch decision db db' := by
  have hframe' : Frame (decision.apply batch) db db' := by
    rw [deleteOwnedBatch_eq_ok h]
    exact hframe.of_tables rfl rfl rfl
  rw [deleteOwnedBatch_eq_ok h] at hframe' ⊢
  exact
    { hframe' with
      terminal := hterminal
      owned := howned
      batches := by rw [← hb]
      entries := by rw [← he]
      attachmentEntries := ha
      files := hfiles.trans hframe.nextId_le le_rfl (.of_eq le_rfl rfl rfl) }

theorem finalizeTerminalBatch_eq_ok {batch : ClaimedBatch Digest} {decision : BatchDecision}
    {state : EmailMessageState} {detail : JsString} {db db' : Database Digest} {u : Unit}
    (hterminal : ∀ errorCode, decision ≠ .retry errorCode)
    (hdecision : ∀ id (v : SendView Digest),
      decision.endView batch id v = { v with state := state })
    (h : finalizeTerminalBatch batch state detail db = .ok (u, db')) :
    BatchFinalized batch decision db db' := by
  simp only [finalizeTerminalBatch, bind_eq_ok, checkTexts_eq_ok, updateMessages_eq_ok] at h
  obtain ⟨_, _, h₁, _, _, ⟨-, rfl⟩, _, _, ⟨-, rfl⟩, h₂⟩ := h
  obtain ⟨rfl, howned⟩ := assertLeaseOwner_eq_ok h₁
  refine .of_delete h₂ hterminal howned ?_ rfl rfl rfl (.of_eq le_rfl rfl rfl)
  refine .of_update (fun m hm => ?_) (fun m hm => ?_) fun m => rfl
  · rw [BatchDecision.apply, if_pos (by simpa [EmailMessage.sendView] using hm), hdecision]
    rfl
  · rw [BatchDecision.apply, if_neg (by simpa [EmailMessage.sendView] using hm)]

theorem finalizeAcceptedBatch_eq_ok {config : Config} {batch : ClaimedBatch Digest}
    {ids : List JsString} {db db' : Database Digest} {u : Unit}
    (h : finalizeAcceptedBatch config batch ids db = .ok (u, db')) :
    BatchFinalized batch (.accept ids) db db' := by
  simp only [finalizeAcceptedBatch, bind_eq_ok, checkTexts_eq_ok, updateMessages_eq_ok, get_eq_ok,
    ensure_eq_ok] at h
  obtain ⟨_, _, h₁, _, _, ⟨-, rfl⟩, _, _, ⟨-, rfl⟩, _, _, ⟨-, rfl⟩, _, _, ⟨rfl, rfl⟩, _,
      _, ⟨-, rfl⟩,
    _, _, ⟨-, rfl⟩, _, db₂, h₂, h₃⟩ := h
  obtain ⟨rfl, howned⟩ := assertLeaseOwner_eq_ok h₁
  have hreports := quiet_reconcileAll _ _ h₂
  refine .of_delete h₃ (by simp) howned ?_ hreports.batches hreports.entries
    hreports.attachmentEntries (hreports.files_after rfl rfl rfl)
  refine Frame.trans ?_ hreports.toFrame
  refine .of_update (fun m hm => ?_) (fun m hm => ?_) fun m => rfl
  · rw [BatchDecision.apply, if_pos (by simpa [EmailMessage.sendView] using hm)]
    rfl
  · rw [BatchDecision.apply, if_neg (by simpa [EmailMessage.sendView] using hm)]

/-- A committed rescheduling. -/
structure BatchRescheduled (batch : ClaimedBatch Digest) (db db' : Database Digest) : Prop where
  owned : ∃ b ∈ db.outboxBatches, batch.owned b = true
  db_eq : ∃ now errorCode, db' = { db with
    outboxBatches := db.outboxBatches.update batch.owned
      (EmailOutboxBatch.reschedule now batch.attemptCount errorCode) }

/-- A committed finalization ends its messages or gives the lease back. -/
theorem finalizeBatch_eq_ok {config : Config} {now : Time} {batch : ClaimedBatch Digest}
    {decision : BatchDecision} {db db' : Database Digest} {u : Unit}
    (h : finalizeBatch config now batch decision db = .ok (u, db')) :
    BatchFinalized batch decision db db' ∨
      ((∃ errorCode, decision = .retry errorCode) ∧ BatchRescheduled batch db db') := by
  cases decision with
  | accept ids => exact .inl (finalizeAcceptedBatch_eq_ok h)
  | fail errorCode => exact .inl (finalizeTerminalBatch_eq_ok (by simp) (fun _ _ => rfl) h)
  | indeterminate detail => exact .inl (finalizeTerminalBatch_eq_ok (by simp) (fun _ _ => rfl) h)
  | retry errorCode =>
      simp only [finalizeBatch, rescheduleBatch, bind_eq_ok, checkTexts_eq_ok, get_eq_ok,
        ensure_eq_ok, modify_eq_ok] at h
      obtain ⟨_, _, ⟨-, rfl⟩, _, _, ⟨rfl, rfl⟩, _, _, ⟨hcount, rfl⟩, rfl⟩ := h
      refine .inr ⟨⟨errorCode, rfl⟩, ?_, now, errorCode, rfl⟩
      exact Table.exists_of_count_eq_one (by simpa using hcount)

/-! ### The attachment lane: claim -/

/-- The database of a claim after its sweep. -/
def sweptAttachments (db : Database Digest) : Database Digest :=
  deleteSettledAttachmentEntries { db with nextId := db.nextId + 1 }

/-- A committed claim of an entry under the token `db.nextId`. -/
structure EntryClaim (now : Time) (db db' : Database Digest) (entry : ClaimedEntry Digest)
    (e : EmailAttachmentOutboxEntry) : Prop where
  found : e ∈ (sweptAttachments db).attachmentOutboxEntries
  pending : db.messageIn e.messageId .pending = true
  ready : e.leaseUntil.all (· ≤ now) = true
  db_eq : db' = { sweptAttachments db with
    attachmentOutboxEntries := (sweptAttachments db).attachmentOutboxEntries.update
      (fun r => r.messageId == e.messageId) (EmailAttachmentOutboxEntry.lease now db.nextId) }
  message : db.messages.get? e.messageId = some entry.message
  leaseToken : entry.leaseToken = db.nextId
  attemptCount : entry.attemptCount = e.attemptCount + 1
  firstAttemptAt : entry.firstAttemptAt = e.firstAttemptAt.getD now

theorem claimEntry_eq_ok {now : Time} {locked : List Uuid} {db db' : Database Digest}
    {claim : Option (ClaimedEntry Digest)} (h : claimEntry now locked db = .ok (claim, db')) :
    (claim = none ∧ db' = sweptAttachments db ∧
      readyEntry (sweptAttachments db) now locked = none) ∨
      ∃ entry e, claim = some entry ∧ readyEntry (sweptAttachments db) now locked = some e ∧
        EntryClaim now db db' entry e := by
  simp only [claimEntry, bind_eq_ok, freshId_eq_ok, modify_eq_ok, get_eq_ok] at h
  obtain ⟨_, _, ⟨rfl, rfl⟩, _, _, rfl, _, _, ⟨rfl, rfl⟩, h⟩ := h
  cases hready : readyEntry (sweptAttachments db) now locked with
  | none =>
      rw [show readyEntry (deleteSettledAttachmentEntries _) now locked = none from hready] at h
      obtain ⟨rfl, rfl⟩ := pure_eq_ok.mp h
      exact .inl ⟨rfl, rfl, rfl⟩
  | some e =>
      rw [show readyEntry (deleteSettledAttachmentEntries _) now locked = some e from hready] at h
      simp only [bind_eq_ok, modify_eq_ok, orThrow_eq_ok, pure_eq_ok] at h
      obtain ⟨_, _, rfl, m, _, ⟨hm, rfl⟩, rfl, rfl⟩ := h
      have hmem := Table.mem_selectSorted.mp (List.mem_of_head? hready)
      simp only [Bool.and_eq_true] at hmem
      exact .inr ⟨_, e, rfl, rfl, hmem.1, hmem.2.1.1.1, hmem.2.1.2, rfl, hm, rfl, rfl, rfl⟩

/-! ### The attachment lane: finalization -/

/-- The view of a message whose attempt is decided. -/
def EntryDecision.endView : EntryDecision → SendView Digest → SendView Digest
  | .accept id, v => { v with state := .accepted, resendEmailId := some id }
  | .finalize state _, v => { v with state := state }
  | .retry _, v => v

/-- The view of the message of the claim after its finalization. -/
def EntryDecision.apply (entry : ClaimedEntry Digest) (decision : EntryDecision) (id : Uuid)
    (v : SendView Digest) : SendView Digest :=
  if id == entry.message.id && v.state == .pending then decision.endView v else v

/-- A committed terminal finalization. -/
structure EntryFinalized (entry : ClaimedEntry Digest) (decision : EntryDecision)
    (db db' : Database Digest) : Prop extends Frame (decision.apply entry) db db' where
  terminal : ∀ errorCode, decision ≠ .retry errorCode
  owned : ∃ e ∈ db.attachmentOutboxEntries, entry.owned e = true
  batches : db'.outboxBatches = db.outboxBatches
  entries : db'.outboxEntries = db.outboxEntries
  attachmentEntries : db'.attachmentOutboxEntries = db.attachmentOutboxEntries.delete entry.owned
  files : FileFrame db db'

theorem deleteOwnedEntry_eq_ok {entry : ClaimedEntry Digest} {db db' : Database Digest} {u : Unit}
    (h : deleteOwnedEntry entry db = .ok (u, db')) :
    (∃ e ∈ db.attachmentOutboxEntries, entry.owned e = true) ∧
      db' = { db with attachmentOutboxEntries :=
        db.attachmentOutboxEntries.delete entry.owned } := by
  simp only [deleteOwnedEntry, bind_eq_ok, get_eq_ok, ensure_eq_ok, modify_eq_ok] at h
  obtain ⟨_, _, ⟨rfl, rfl⟩, _, _, ⟨hcount, rfl⟩, rfl⟩ := h
  exact ⟨Table.exists_of_count_eq_one (by simpa using hcount), rfl⟩

/-- The deletion of the claimed entry completes a finalization. -/
theorem EntryFinalized.of_delete {entry : ClaimedEntry Digest} {decision : EntryDecision}
    {db db₁ db' : Database Digest} {u : Unit} (h : deleteOwnedEntry entry db₁ = .ok (u, db'))
    (hterminal : ∀ errorCode, decision ≠ .retry errorCode)
    (hframe : Frame (decision.apply entry) db db₁) (hb : db₁.outboxBatches = db.outboxBatches)
    (he : db₁.outboxEntries = db.outboxEntries)
    (ha : db₁.attachmentOutboxEntries = db.attachmentOutboxEntries) (hfiles : FileFrame db db₁) :
    EntryFinalized entry decision db db' := by
  obtain ⟨howned, heq⟩ := deleteOwnedEntry_eq_ok h
  have hframe' : Frame (decision.apply entry) db db' := by
    rw [heq]
    exact hframe.of_tables rfl rfl rfl
  rw [heq] at hframe' ⊢
  exact
    { hframe' with
      terminal := hterminal
      owned := by rwa [ha] at howned
      batches := hb
      entries := he
      attachmentEntries := by rw [← ha]
      files := hfiles.trans hframe.nextId_le le_rfl (.of_eq le_rfl rfl rfl) }

theorem acceptEntry_eq_ok {config : Config} {entry : ClaimedEntry Digest} {id : JsString}
    {db db' : Database Digest} {u : Unit} (h : acceptEntry config entry id db = .ok (u, db')) :
    EntryFinalized entry (.accept id) db db' := by
  simp only [acceptEntry, bind_eq_ok, checkTexts_eq_ok, updateMessages_eq_ok, get_eq_ok,
    ensure_eq_ok] at h
  obtain ⟨_, _, ⟨-, rfl⟩, _, _, ⟨-, rfl⟩, _, _, ⟨rfl, rfl⟩, _, _, ⟨-, rfl⟩, _, _, ⟨-, rfl⟩, _, db₂,
    h₂, h₃⟩ := h
  have hreports := quiet_projectOutboundDeliveryState _ _ h₂
  refine .of_delete h₃ (by simp) ?_ hreports.batches hreports.entries hreports.attachmentEntries
    (hreports.files_after rfl rfl rfl)
  refine Frame.trans ?_ hreports.toFrame
  refine .of_update (fun m hm => ?_) (fun m hm => ?_) fun m => rfl
  · rw [EntryDecision.apply, if_pos (by simpa [EmailMessage.sendView] using hm)]
    rfl
  · rw [EntryDecision.apply, if_neg (by simpa [EmailMessage.sendView] using hm)]

theorem finalizeEntry_eq_ok {entry : ClaimedEntry Digest} {state : EmailMessageState}
    {detail : JsString} {db db' : Database Digest} {u : Unit}
    (h : finalizeEntry entry state detail db = .ok (u, db')) :
    EntryFinalized entry (.finalize state detail) db db' := by
  simp only [finalizeEntry, bind_eq_ok, checkTexts_eq_ok, updateMessages_eq_ok] at h
  obtain ⟨_, _, ⟨-, rfl⟩, _, _, ⟨-, rfl⟩, h₁⟩ := h
  refine .of_delete h₁ (by simp) ?_ rfl rfl rfl (.of_eq le_rfl rfl rfl)
  refine .of_update (fun m hm => ?_) (fun m hm => ?_) fun m => rfl
  · rw [EntryDecision.apply, if_pos (by simpa [EmailMessage.sendView] using hm)]
    rfl
  · rw [EntryDecision.apply, if_neg (by simpa [EmailMessage.sendView] using hm)]

/-- A committed rescheduling. -/
structure EntryRescheduled (entry : ClaimedEntry Digest) (db db' : Database Digest) : Prop where
  owned : ∃ e ∈ db.attachmentOutboxEntries, entry.owned e = true
  db_eq : ∃ now errorCode, db' = { db with
    attachmentOutboxEntries := db.attachmentOutboxEntries.update entry.owned
      (EmailAttachmentOutboxEntry.reschedule now entry.attemptCount errorCode) }

/-- A committed finalization ends its message or gives the lease back. -/
theorem endEntry_eq_ok {config : Config} {now : Time} {entry : ClaimedEntry Digest}
    {decision : EntryDecision} {db db' : Database Digest} {u : Unit}
    (h : endEntry config now entry decision db = .ok (u, db')) :
    EntryFinalized entry decision db db' ∨
      ((∃ errorCode, decision = .retry errorCode) ∧ EntryRescheduled entry db db') := by
  cases decision with
  | accept id => exact .inl (acceptEntry_eq_ok h)
  | finalize state detail => exact .inl (finalizeEntry_eq_ok h)
  | retry errorCode =>
      simp only [endEntry, scheduleRetry, bind_eq_ok, checkTexts_eq_ok, get_eq_ok, ensure_eq_ok,
        modify_eq_ok] at h
      obtain ⟨_, _, ⟨-, rfl⟩, _, _, ⟨rfl, rfl⟩, _, _, ⟨hcount, rfl⟩, rfl⟩ := h
      refine .inr ⟨⟨errorCode, rfl⟩, ?_, now, errorCode, rfl⟩
      exact Table.exists_of_count_eq_one (by simpa using hcount)

end ResendConversation
