import ResendConversation.QueueLanes

/-! # Claims over time

Databases only move to later ones (`Later`): what still exists of an earlier database has
evolved.  A claim of the batch lane covers its batch when it is made, and every transaction
keeps that (`BatchHeld`). -/

namespace ResendConversation

open Foundation Tx

variable {Digest : Type} {rt : Runtime Digest}

/-! ### Later databases -/

/-- What still exists of an earlier database has evolved. -/
structure Later (db db' : Database Digest) : Prop where
  nextId_le : db.nextId ≤ db'.nextId
  view : ∀ id v', id < db.nextId → db'.view? id = some v' → ∃ v, db.view? id = some v ∧ v.Evolves v'
  conversations : ∀ c, c < db.nextId → (db'.conversations.get? c).isSome →
    (db.conversations.get? c).isSome ∧ (db.Assigned c → db'.Assigned c)

instance : Std.Refl (@Later Digest) where
  refl _ := ⟨le_rfl, fun _ v' _ hv => ⟨v', hv, .refl v'⟩, fun _ _ hc => ⟨hc, fun ha => ha⟩⟩

instance : IsTrans (Database Digest) Later where
  trans _ _ _ hab hbc := by
    refine ⟨hab.nextId_le.trans hbc.nextId_le, fun id w hid hw => ?_, fun c hid hc => ?_⟩
    · obtain ⟨v, hv, hvw⟩ := hbc.view id w (hid.trans_le hab.nextId_le) hw
      obtain ⟨u, hu, huv⟩ := hab.view id v hid hv
      exact ⟨u, hu, huv.trans hvw⟩
    · obtain ⟨hb, hbc'⟩ := hbc.conversations c (hid.trans_le hab.nextId_le) hc
      obtain ⟨ha, hab'⟩ := hab.conversations c hid hb
      exact ⟨ha, fun h => hbc' (hab' h)⟩

theorem Later.of_frame {φ : Uuid → SendView Digest → SendView Digest} {db db' : Database Digest}
    (h : Frame φ db db') (hφ : ∀ id v, db.view? id = some v → v.Evolves (φ id v)) :
    Later db db' where
  nextId_le := h.nextId_le
  view := by
    intro id v' hid hv'
    cases hv : db.view? id with
    | none => exact absurd (h.fresh id v' hv' hv).1 (Nat.not_le.mpr hid)
    | some v =>
        have := h.view id v hv
        rw [hv'] at this
        cases this
        exact ⟨v, rfl, hφ id v hv⟩
  conversations := by
    intro c hc hsome
    rcases h.conversations.created c hsome with hold | ⟨hle, -⟩
    · exact ⟨hold, h.conversations.assigned c⟩
    · exact absurd hle (Nat.not_le.mpr hc)

theorem Later.of_stored {ctx : SendContext Digest} {db db' : Database Digest} {id : Uuid}
    {v : SendView Digest} (h : Stored ctx db db' id v) : Later db db' where
  nextId_le := h.nextId_le.trans h.lt_nextId.le
  view := by
    intro k w hk hw
    cases hu : db.view? k with
    | none =>
        rcases h.fresh k w hw hu with rfl | ⟨hle, -, -⟩
        · exact absurd h.nextId_le (Nat.not_le.mpr hk)
        · exact absurd hle (Nat.not_le.mpr hk)
    | some u =>
        have := h.view k u hu
        rw [hw] at this
        cases this
        exact ⟨w, rfl, .refl w⟩
  conversations := by
    intro c hc hsome
    rcases h.conversations.created c hsome with hold | ⟨hle, -⟩
    · exact ⟨hold, h.conversations.assigned c⟩
    · exact absurd hle (Nat.not_le.mpr hc)

theorem Later.of_deleted {c : Uuid} {db db' : Database Digest} (h : ConversationDeleted c db db') :
    Later db db' where
  nextId_le := h.nextId_le
  view := by
    intro id v' _ hv'
    obtain ⟨m, hm, -, rfl⟩ := h.view_of_view hv'
    exact ⟨m.sendView, Database.view?_of_get? hm, .refl _⟩
  conversations := by
    intro d hd hsome
    rcases h.created d hsome with hold | ⟨hle, -⟩
    · refine ⟨hold, h.assigned d fun hdc => ?_⟩
      rw [hdc, h.deleted] at hsome
      cases hsome
    · exact absurd hle (Nat.not_le.mpr hd)

/-! ### Claims over time -/

/-- A transaction that adds nothing to the batch of a claim and takes only deleted messages
from it, unless the batch is deleted. -/
theorem BatchHeld.mono {db db' : Database Digest} {batch : ClaimedBatch Digest}
    (h : BatchHeld db batch) (hl : Later db db')
    (hrow : (db'.outboxBatches.get? batch.id).isSome → (db.outboxBatches.get? batch.id).isSome ∧
      ∀ e, e.batchId = some batch.id → (e ∈ db'.outboxEntries → e ∈ db.outboxEntries) ∧
        (e ∈ db.outboxEntries → (db'.view? e.messageId).isSome → e ∈ db'.outboxEntries)) :
    BatchHeld db' batch where
  id_lt := h.id_lt.trans_le hl.nextId_le
  ids_lt := fun id hid => (h.ids_lt id hid).trans_le hl.nextId_le
  nodup := h.nodup
  covers := by
    intro hb e he hbatch
    obtain ⟨hold, hentries⟩ := hrow hb
    exact h.covers hold e ((hentries e hbatch).1 he) hbatch
  holds := by
    intro hb id hid hview
    obtain ⟨hold, hentries⟩ := hrow hb
    obtain ⟨v', hv'⟩ := Option.isSome_iff_exists.mp hview
    obtain ⟨v, hv, -⟩ := hl.view id v' (h.ids_lt id hid) hv'
    obtain ⟨e, he, rfl, hbatch⟩ := h.holds hold id hid (by rw [hv]; rfl)
    exact ⟨e, (hentries e hbatch).2 he hview, rfl, hbatch⟩

/-- A transaction that leaves the batches and their entries alone. -/
theorem BatchHeld.of_same_tables {db db' : Database Digest} {batch : ClaimedBatch Digest}
    (h : BatchHeld db batch) (hl : Later db db') (hb : db'.outboxBatches = db.outboxBatches)
    (he : db'.outboxEntries = db.outboxEntries) : BatchHeld db' batch := by
  refine h.mono hl fun hrow => ⟨hb ▸ hrow, fun e _ => ?_⟩
  rw [he]
  exact ⟨fun h => h, fun h _ => h⟩

theorem BatchHeld.of_stored {ctx : SendContext Digest} {db db' : Database Digest} {id : Uuid}
    {v : SendView Digest} {batch : ClaimedBatch Digest} (h : BatchHeld db batch)
    (hs : Stored ctx db db' id v) : BatchHeld db' batch := by
  refine h.mono (.of_stored hs) fun hrow =>
    ⟨hs.batches ▸ hrow, fun e hbatch => ⟨fun he => ?_, fun he _ => ?_⟩⟩
  · rcases (hs.entries e).mp he with he | ⟨-, -, rfl⟩
    · exact he
    · cases hbatch
  · exact (hs.entries e).mpr (.inl he)

theorem BatchHeld.of_deleted {c : Uuid} {db db' : Database Digest} {batch : ClaimedBatch Digest}
    (h : BatchHeld db batch) (hd : ConversationDeleted c db db') : BatchHeld db' batch := by
  refine h.mono (.of_deleted hd) fun hrow =>
    ⟨hd.batches ▸ hrow, fun e _ => ⟨fun he => ?_, fun he hv => ?_⟩⟩
  · exact ((hd.entries e).mp he).1
  · refine (hd.entries e).mpr ⟨he, fun m hm hc => ?_⟩
    rw [Database.view?, hd.gone e.messageId m hm hc] at hv
    cases hv

theorem BatchHeld.of_batchFinalized {batch claimed : ClaimedBatch Digest} {decision : BatchDecision}
    {db db' : Database Digest} (h : BatchHeld db batch) (hl : Later db db')
    (hf : BatchFinalized claimed decision db db') : BatchHeld db' batch := by
  refine h.mono hl fun hrow => ?_
  obtain ⟨b, hb⟩ := Option.isSome_iff_exists.mp hrow
  rw [hf.batches, Table.get?_delete, Option.filter_eq_some_iff] at hb
  -- the row of the finalized batch is gone
  have hne : batch.id ≠ claimed.id := by
    rintro heq
    obtain ⟨r, hr, ho⟩ := hf.owned
    have hkey := (ClaimedBatch.owned_iff.mp ho).1
    have : b = r := Table.key_inj (Table.mem_of_get? hb.1) hr
      ((Table.key_of_get? hb.1).trans (heq.trans hkey.symm))
    simp [this, ho] at hb
  refine ⟨by rw [hb.1]; rfl, fun e hbatch => ?_⟩
  have hkeep : (e.batchId == some claimed.id) = false := by simp [hbatch, hne]
  rw [hf.entries, Table.mem_delete, hkeep]
  exact ⟨fun he => he.1, fun he _ => ⟨he, rfl⟩⟩

theorem BatchHeld.of_batches {db : Database Digest} {batch : ClaimedBatch Digest}
    (h : BatchHeld db batch) {p : EmailOutboxBatch → Bool} {f : EmailOutboxBatch → EmailOutboxBatch}
    {keep : ∀ b, (f b).id = b.id} {n : Uuid} (hn : db.nextId ≤ n) :
    BatchHeld { db with nextId := n, outboxBatches := db.outboxBatches.update p f keep } batch where
  id_lt := h.id_lt.trans_le hn
  ids_lt := fun id hid => (h.ids_lt id hid).trans_le hn
  nodup := h.nodup
  covers := fun hb => h.covers (by simpa using hb)
  holds := fun hb => h.holds (by simpa using hb)

theorem BatchHeld.of_batchRescheduled {batch claimed : ClaimedBatch Digest}
    {db db' : Database Digest} (h : BatchHeld db batch) (hr : BatchRescheduled claimed db db') :
    BatchHeld db' batch := by
  obtain ⟨now, errorCode, rfl⟩ := hr.db_eq
  exact h.of_batches le_rfl

/-- A claim moves no message and no conversation. -/
theorem BatchClaim.frame {now : Time} {db db' : Database Digest} {loaded : LoadedBatch Digest}
    (hc : BatchClaim now db db' loaded) : Frame (fun _ v => v) db db' := by
  cases hc with
  | leased found ready db_eq loaded =>
      rw [db_eq]
      exact (background_nextId db (Nat.le_succ _)).toFrame.of_tables rfl rfl rfl
  | created entries nonempty inserted db_eq loaded =>
      rw [db_eq]
      exact (background_nextId db (Nat.le_add_right _ 2)).toFrame.of_tables rfl rfl rfl

/-- So do a rescheduling and the transactions of the attachment lane. -/
theorem BatchRescheduled.frame {batch : ClaimedBatch Digest} {db db' : Database Digest}
    (hr : BatchRescheduled batch db db') : Frame (fun _ v => v) db db' := by
  obtain ⟨now, errorCode, rfl⟩ := hr.db_eq
  exact (background_nextId db le_rfl).toFrame.of_tables rfl rfl rfl

theorem EntryClaim.frame {now : Time} {db db' : Database Digest} {entry : ClaimedEntry Digest}
    {e : EmailAttachmentOutboxEntry} (hc : EntryClaim now db db' entry e) :
    Frame (fun _ v => v) db db' := by
  rw [hc.db_eq]
  exact (background_nextId db (Nat.le_succ _)).toFrame.of_tables rfl rfl rfl

theorem EntryClaim.batches {now : Time} {db db' : Database Digest} {entry : ClaimedEntry Digest}
    {e : EmailAttachmentOutboxEntry} (hc : EntryClaim now db db' entry e) :
    db'.outboxBatches = db.outboxBatches := by
  rw [hc.db_eq]
  rfl

theorem EntryClaim.entries {now : Time} {db db' : Database Digest} {entry : ClaimedEntry Digest}
    {e : EmailAttachmentOutboxEntry} (hc : EntryClaim now db db' entry e) :
    db'.outboxEntries = db.outboxEntries := by
  rw [hc.db_eq]
  rfl

theorem EntryRescheduled.frame {entry : ClaimedEntry Digest} {db db' : Database Digest}
    (hr : EntryRescheduled entry db db') : Frame (fun _ v => v) db db' := by
  obtain ⟨now, errorCode, rfl⟩ := hr.db_eq
  exact (background_nextId db le_rfl).toFrame.of_tables rfl rfl rfl

theorem EntryRescheduled.batches {entry : ClaimedEntry Digest} {db db' : Database Digest}
    (hr : EntryRescheduled entry db db') : db'.outboxBatches = db.outboxBatches := by
  obtain ⟨now, errorCode, rfl⟩ := hr.db_eq
  rfl

theorem EntryRescheduled.entries {entry : ClaimedEntry Digest} {db db' : Database Digest}
    (hr : EntryRescheduled entry db db') : db'.outboxEntries = db.outboxEntries := by
  obtain ⟨now, errorCode, rfl⟩ := hr.db_eq
  rfl

theorem BatchHeld.of_batchClaim {batch : ClaimedBatch Digest} {db db' : Database Digest}
    {now : Time} {loaded : LoadedBatch Digest} (h : BatchHeld db batch) (hq : Queue rt db)
    (hc : BatchClaim now db db' loaded) : BatchHeld db' batch := by
  have hl := Later.of_frame hc.frame fun _ v _ => .refl v
  cases hc with
  | leased found ready db_eq loaded =>
      subst db_eq
      rw [hq.swept_eq]
      exact h.of_batches (Nat.le_succ _)
  | @created ids table limit locked entries nonempty inserted db_eq loaded =>
      subst db_eq
      refine h.mono hl fun hrow => ?_
      have hne : batch.id ≠ db.nextId + 1 := (h.id_lt.trans (Nat.lt_succ_self _)).ne
      refine ⟨?_, fun e hbatch => ?_⟩
      · change (table.get? batch.id).isSome at hrow
        rw [Table.get?_of_insert? inserted] at hrow
        rwa [if_neg (show (newBatch now db.nextId (db.nextId + 1)).id ≠
          batch.id from hne.symm)] at hrow
      · change (e ∈ (swept db).outboxEntries.update _ _ → _) ∧
          (_ → _ → e ∈ (swept db).outboxEntries.update _ _)
        rw [hq.swept_eq]
        constructor
        · intro he
          obtain ⟨f, hf, -, ⟨rfl, -⟩ | ⟨-, -, hb, -⟩⟩ := mem_assigned he
          · exact hf
          · exact absurd (Option.some.inj (hbatch.symm.trans hb)) hne
        · intro he _
          refine Table.mem_update.mpr ⟨e, he, if_neg ?_⟩
          simp [hbatch]

/-! ### A new claim -/

/-- The rows of a claimed batch are its messages, in the order of its entries. -/
theorem Queue.loaded_messageIds {db : Database Digest} (h : Queue rt db) {batchId : Uuid}
    {loaded : LoadedBatch Digest} (hl : Loaded db batchId loaded) :
    loaded.messages.map EmailMessage.id =
      (batchEntries db batchId).map EmailOutboxEntry.messageId := by
  rw [hl.2, List.map_filterMap, ← List.filterMap_eq_map]
  refine List.filterMap_congr fun e he => ?_
  obtain ⟨v, hv, -⟩ := h.entry e (Table.mem_selectSorted.mp he).1
  obtain ⟨m, hm, -⟩ := Database.view?_eq_some.mp hv
  rw [hm, Option.map_some, Table.key_of_get? hm]
  rfl

/-- The messages of a claimed batch are pending. -/
theorem Queue.loaded_pending {db : Database Digest} (h : Queue rt db) {batchId : Uuid}
    {loaded : LoadedBatch Digest} (hl : Loaded db batchId loaded) :
    ∀ m ∈ loaded.messages, m.state = .pending := by
  intro m hm
  rw [hl.2, List.mem_filterMap] at hm
  obtain ⟨e, he, hget⟩ := hm
  obtain ⟨v, hv, hp, -⟩ := h.entry e (Table.mem_selectSorted.mp he).1
  rw [Database.view?_of_get? hget] at hv
  cases hv
  exact hp

/-- The check of a claim passes. -/
theorem Queue.checkClaim_eq_ok {db : Database Digest} (h : Queue rt db) (leaseToken : Uuid)
    {batchId : Uuid} {loaded : LoadedBatch Digest} (hl : Loaded db batchId loaded) :
    ∃ batch, checkClaim leaseToken loaded = .ok batch ∧ batch.id = batchId ∧
      batch.leaseToken = leaseToken ∧ batch.attemptCount = loaded.batch.attemptCount ∧
      loaded.batch.firstAttemptAt = some batch.firstAttemptAt ∧
        batch.messages = loaded.messages := by
  obtain ⟨-, hfirst, -⟩ := h.batch loaded.batch (Table.mem_of_get? hl.1)
  obtain ⟨firstAttemptAt, hf⟩ := Option.isSome_iff_exists.mp hfirst
  have hp : (loaded.messages.any fun m => m.state != .pending) = false := by
    simpa using h.loaded_pending hl
  have hid : loaded.batch.id = batchId := Table.key_of_get? hl.1
  refine ⟨⟨loaded.batch.id, leaseToken, loaded.batch.attemptCount, firstAttemptAt,
    loaded.messages⟩, ?_, hid, rfl, rfl, hf, rfl⟩
  simp only [checkClaim, hf, hp, Bool.false_eq_true, if_false]

/-- A claimed batch is held. -/
theorem Queue.batchHeld {db : Database Digest} (h : Queue rt db) (ho : Origins rt db)
    {batchId : Uuid} {loaded : LoadedBatch Digest} (hl : Loaded db batchId loaded)
    {batch : ClaimedBatch Digest} (hid : batch.id = batchId)
    (hm : batch.messages = loaded.messages) : BatchHeld db batch := by
  have hids : batch.messageIds = (batchEntries db batch.id).map EmailOutboxEntry.messageId := by
    rw [ClaimedBatch.messageIds, hm, h.loaded_messageIds hl, hid]
  have hmem : ∀ id ∈ batch.messageIds, ∃ e ∈ db.outboxEntries, e.messageId = id ∧
      e.batchId = some batch.id := by
    intro id hin
    rw [hids] at hin
    obtain ⟨e, he, rfl⟩ := List.mem_map.mp hin
    obtain ⟨hmem, hbatch⟩ := Table.mem_selectSorted.mp he
    exact ⟨e, hmem, rfl, by simpa using hbatch⟩
  refine ⟨?_, fun id hin => ?_, ?_, fun _ e he hbatch => ?_, fun _ id hin _ => hmem id hin⟩
  · rw [hid, ← Table.key_of_get? hl.1]
    exact (h.batch _ (Table.mem_of_get? hl.1)).1
  · obtain ⟨e, he, rfl, -⟩ := hmem id hin
    obtain ⟨v, hv, -⟩ := h.entry e he
    exact (ho.origin _ v hv).1
  · rw [hids]
    exact Table.nodup_map_selectSorted _ _ _
  · rw [hids]
    exact List.mem_map.mpr ⟨e, Table.mem_selectSorted.mpr ⟨he, by simp [hbatch]⟩, rfl⟩

/-- The batch of a claim, with its token. -/
theorem BatchClaim.loaded_eq {now : Time} {db db' : Database Digest} {loaded : LoadedBatch Digest}
    (hc : BatchClaim now db db' loaded) : Loaded db' loaded.batch.id loaded := by
  cases hc with
  | leased found ready db_eq loaded => rwa [Table.key_of_get? loaded.1]
  | created entries nonempty inserted db_eq loaded => rwa [Table.key_of_get? loaded.1]

end ResendConversation
