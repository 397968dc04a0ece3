import ResendConversation.Commits

/-! # Statements

Every transaction of the service is a sequence of writing statements of a few kinds, listed by
`Statement`.  A statement is routine, or it is one that only some transactions make: those are
named by a `Grant`, which says for instance which rows a transaction may insert.  `Performs G`
relates the databases around a sequence of statements that are routine or granted by `G`, and
a fact about all transactions is an analysis of the kinds of statements. -/

namespace ResendConversation

open Foundation Tx

variable {Digest : Type}

/-! ### Kinds of statements -/

/-- The columns of a message that its delivery writes. -/
structure Outcome where
  state : EmailMessageState
  stateDetail : Option JsString
  deliveryState : Option EmailDeliveryState
  deliveryStateDetail : Option JsString
  deliveryStateUpdatedAt : Option Time
  deliveredAt : Option Time
  resendEmailId : Option JsString

def EmailMessage.settle (outcome : Outcome) (m : EmailMessage Digest) : EmailMessage Digest :=
  { m with
    state := outcome.state
    stateDetail := outcome.stateDetail
    deliveryState := outcome.deliveryState
    deliveryStateDetail := outcome.deliveryStateDetail
    deliveryStateUpdatedAt := outcome.deliveryStateUpdatedAt
    deliveredAt := outcome.deliveredAt
    resendEmailId := outcome.resendEmailId }

/-- The columns that an attachment keeps while its file is fetched. -/
def EmailAttachment.AdvancesTo (a a' : EmailAttachment) : Prop :=
  a' = { a with
    state := a'.state
    stateDetail := a'.stateDetail
    sizeBytes := a'.sizeBytes
    attemptCount := a'.attemptCount
    nextAttemptAt := a'.nextAttemptAt
    leaseToken := a'.leaseToken
    leaseUntil := a'.leaseUntil
    lastErrorCode := a'.lastErrorCode }

/-- The columns of a conversation that a reopening replaces. -/
def EmailConversation.reopen (value : CreateConversationV2Input) (now : Time)
    (c : EmailConversation) :
    EmailConversation :=
  { c with
    apiVersion := some .v2
    title := value.topic.title
    subject := openingSubject value
    participantAddress := value.participant.email
    participantName := value.participant.name
    replyToBaseAddress := some value.message.replyTo.address
    replyToRequiresAllowlist := true
    state := .awaitingParticipant
    stateChangedAt := now
    lastMessageAt := now }

/-- The statements that only some transactions make. -/
structure Grant (Digest : Type) where
  /-- Rows to be inserted. -/
  conversation : EmailConversation → Prop := fun _ => False
  message : Database Digest → EmailMessage Digest → Prop := fun _ _ => False
  upload : EmailAttachment → Prop := fun _ => False
  /-- Message-IDs to be recorded. -/
  identify : JsString → Prop := fun _ => False
  reopen : CreateConversationV2Input → Prop := fun _ => False
  /-- Messages to which uploads are bound. -/
  bind : Uuid → Prop := fun _ => False
  /-- Conversations to be deleted. -/
  delete : Database Digest → Uuid → Prop := fun _ _ => False
  /-- Conversations whose last event is appended, and whose other events are removed. -/
  purge : Uuid → Prop := fun _ => False
  /-- Messages may be moved, and conversations dated anew. -/
  rethread : Prop := False
  finish : StorageKey → Prop := fun _ => False
  /-- Attachments may be claimed, stored and failed. -/
  ingest : Prop := False
  expire : Prop := False
  allowlist : Prop := False

/-- One writing statement, routine or granted. -/
inductive Statement (G : Grant Digest) (db : Database Digest) : Database Digest → Prop
  /-- Identifiers are drawn, and rows of the outbox tables, the routing aliases or the ledger of
  webhooks are written. -/
  | other (n : Uuid) (aliases : Table EmailConversationRoutingAlias.id)
      (batches : Table EmailOutboxBatch.id) (entries : Table EmailOutboxEntry.messageId)
      (attachmentEntries : Table EmailAttachmentOutboxEntry.messageId)
      (webhooks : Table EmailWebhookEvent.svixId) (le : db.nextId ≤ n) :
      Statement G db { db with
        nextId := n, routingAliases := aliases, outboxBatches := batches, outboxEntries := entries
        attachmentOutboxEntries := attachmentEntries, webhookEvents := webhooks }
  | conversation (c : EmailConversation) (table : Table EmailConversation.id)
      (granted : G.conversation c) (id : c.id = db.nextId) (sequence : c.eventSequence = 0)
      (insert : db.conversations.insert? c = some table) :
      Statement G db { db with nextId := db.nextId + 2, conversations := table }
  | turn (p : EmailConversation → Bool) (state : ConversationState) (changedAt : Time) :
      Statement G db { db with
        conversations := db.conversations.update p fun c =>
          { c with state := state, stateChangedAt := changedAt } }
  | merge (target : EmailConversation) (sources : List EmailConversation) :
      Statement G db { db with
        conversations :=
          db.conversations.update (fun c => c.id == target.id) (mergedConversation sources target) }
  | date (id : Uuid) (latest : Time) (granted : G.rethread) :
      Statement G db { db with
        conversations := db.conversations.update (fun c => c.id == id) fun c =>
          { c with lastMessageAt := latest } }
  | reply (id : Uuid) (base : JsString) (now : Time) (granted : G.rethread) :
      Statement G db { db with
        conversations := db.conversations.update (fun c => c.id == id) fun c =>
          { c with
            apiVersion := some .v2
            replyToBaseAddress := some base
            replyToRequiresAllowlist := true
            lastMessageAt := max c.lastMessageAt now } }
  | reopen (id : Uuid) (value : CreateConversationV2Input) (now : Time) (granted : G.reopen value) :
      Statement G db { db with
        conversations :=
          db.conversations.update (fun c => c.id == id) (EmailConversation.reopen value now) }
  | assign (id : Uuid) (topic : JsString × JsString) (title : JsString) :
      Statement G db { db with
        conversations := db.conversations.update (fun c => c.id == id) fun c =>
          { c with
            apiVersion := some .v2
            topicType := some topic.1
            externalTopicId := some topic.2
            title := title } }
  | message (m : EmailMessage Digest) (table : Table (@EmailMessage.id Digest))
      (granted : G.message db m) (id : m.id = db.nextId) (shape : m.kindShape)
      (placed : ∀ c, m.conversationId = some c → (db.conversations.get? c).isSome)
      (insert : db.messages.insert? m = some table) :
      Statement G db { db with nextId := db.nextId + 1, messages := table }
  | settle (p : EmailMessage Digest → Bool) (outcome : EmailMessage Digest → Outcome) :
      Statement G db { db with
        messages := db.messages.update p fun m => m.settle (outcome m) }
  | identify (id : Uuid) (internetMessageId : JsString) (emailCreatedAt : Time)
      (granted : G.identify internetMessageId) :
      Statement G db { db with
        messages := db.messages.update (fun m => m.id == id) fun m =>
          { m with
            internetMessageId := some internetMessageId
            emailCreatedAt := emailCreatedAt } }
  | name (id : Uuid) (internetMessageId : JsString) (granted : G.identify internetMessageId) :
      Statement G db { db with
        messages := db.messages.update (fun m => m.id == id) fun m =>
          { m with internetMessageId := some internetMessageId } }
  | move (target : Uuid) (sources : List Uuid) (granted : G.rethread) :
      Statement G db { db with
        messages := db.messages.update (fun m => m.conversationId.any sources.contains) fun m =>
          { m with conversationId := some target } }
  | adopt (parent : Uuid) (p : EmailMessage Digest → Bool) :
      Statement G db { db with
        messages := db.messages.update p fun m => { m with parentMessageId := some parent } }
  | delete (now : Time) (ids : List Uuid) (granted : ∀ c ∈ ids, G.delete db c) :
      Statement G db (deleteConversations now ids db)
  | event (e : ConversationEvent) (c : EmailConversation) (events : Table ConversationEvent.id)
      (deliveries : Table ConversationEventDelivery.eventId)
      (found : db.conversations.get? e.conversationId = some c)
      (sequence : e.sequence = c.eventSequence + 1) (id : e.id = db.nextId)
      (granted : e.type = .deleted → G.purge e.conversationId)
      (insert : db.conversationEvents.insert? e = some events)
      (insertDelivery : db.conversationEventDeliveries.insert? ⟨e.id⟩ = some deliveries) :
      Statement G db { db with
        nextId := db.nextId + 1
        conversations := db.conversations.update (fun c => c.id == e.conversationId) fun c =>
          { c with eventSequence := c.eventSequence + 1 }
        conversationEvents := events
        conversationEventDeliveries := deliveries }
  | purge (conversationId : Uuid) (kept : Option Uuid) (granted : G.purge conversationId) :
      Statement G db (deleteConversationEvents conversationId kept db)
  | attach (a : EmailAttachment) (table : Table EmailAttachment.id) (id : a.id = db.nextId)
      (key : a.storageKey.id = db.nextId + 1) (source : a.source = .inbound)
        (state : a.state = .pending)
      (lease : a.leaseToken = none) (unleased : a.leaseUntil = none) (attempts : a.attemptCount = 0)
      (bound : ∀ m, a.messageId = some m → (db.messages.get? m).isSome)
      (insert : db.attachments.insert? a = some table) :
      Statement G db { db with nextId := db.nextId + 2, attachments := table }
  | upload (a : EmailAttachment) (table : Table EmailAttachment.id) (granted : G.upload a)
      (id : a.id = db.nextId) (source : a.source = .upload) (state : a.state = .stored)
      (unbound : a.messageId = none) (lease : a.leaseToken = none)
      (free : ∀ b ∈ db.attachments, b.storageKey ≠ a.storageKey)
      (insert : db.attachments.insert? a = some table) :
      Statement G db { db with nextId := db.nextId + 1, attachments := table }
  | bind (messageId : Uuid) (ids : List Uuid) (granted : G.bind messageId)
      (drawn : messageId < db.nextId) :
      Statement G db { db with
        attachments := db.attachments.update
          (fun a => ids.contains a.id && a.messageId.isNone && a.source == .upload &&
            a.state == .stored)
          fun a => { a with messageId := some messageId } }
  | inline (messageId id : Uuid) (contentId : Option JsString) (granted : G.bind messageId) :
      Statement G db { db with
        attachments := db.attachments.update (fun a => a.id == id && a.messageId == some messageId)
          fun a => { a with contentId := contentId, contentDisposition := .inline } }
  | advance (p : EmailAttachment → Bool) (f : EmailAttachment → EmailAttachment)
      (keep : ∀ a, (f a).id = a.id)
      (granted : G.ingest)
      (selects : ∀ a ∈ db.attachments, p a = true → a.source = .inbound ∨ a.leaseToken.isSome)
      (frame : ∀ a, EmailAttachment.AdvancesTo a (f a)) :
      Statement G db { db with attachments := db.attachments.update p f keep }
  | expire (now : Time) (p : EmailAttachment → Bool) (granted : G.expire)
      (selects : ∀ a, p a = true → a.source = .upload ∧ a.messageId = none) :
      Statement G db (deleteAttachments now p db)
  | tombstone (now : Time) (key : StorageKey) : Statement G db (tombstoneFor now key db)
  | leaseTombstones (p : StoredObjectTombstone → Bool) (f : StoredObjectTombstone →
      StoredObjectTombstone)
      (keep : ∀ t, (f t).id = t.id) (key : ∀ t, (f t).storageKey = t.storageKey) :
      Statement G db { db with tombstones := db.tombstones.update p f keep }
  | finish (p : StoredObjectTombstone → Bool) (granted : ∀ t ∈ db.tombstones, p t →
      G.finish t.storageKey) :
      Statement G db { db with tombstones := db.tombstones.delete p }
  | allowlist (entries : Table (id : EmailAddressAllowlistEntry → EmailAddressAllowlistEntry))
      (granted : G.allowlist) : Statement G db { db with allowlist := entries }

/-! ### Sequences of statements -/

/-- Some statements, each routine or granted, lead from the one database to the other. -/
def Performs (G : Grant Digest) : Database Digest → Database Digest → Prop :=
  Relation.ReflTransGen (Statement G)

/-- The grant of a transaction that makes routine statements only. -/
def Grant.routine : Grant Digest := {}

section
variable {G : Grant Digest}

instance : Std.Refl (Performs G) where
  refl _ := .refl

instance : IsTrans (Database Digest) (Performs G) where
  trans _ _ _ h h' := Relation.ReflTransGen.trans h h'

theorem Performs.trans {a b c : Database Digest} (h : Performs G a b) (h' : Performs G b c) :
    Performs G a c :=
  Relation.ReflTransGen.trans h h'

theorem Performs.single {db db' : Database Digest} (h : Statement G db db') : Performs G db db' :=
  Relation.ReflTransGen.single h

/-- What every statement keeps, the transaction keeps. -/
theorem Performs.invariant {I : Database Digest → Prop} {db db' : Database Digest}
    (h : Performs G db db') (h0 : I db) (hstep : ∀ db db', I db → Statement G db db' → I db') :
    I db' := by
  induction h with
  | refl => exact h0
  | tail _ hs ih => exact hstep _ _ ih hs

/-- A reflexive and transitive relation that every statement respects. -/
theorem Performs.relates {I : Database Digest → Prop} {R : Database Digest → Database Digest → Prop}
    [Std.Refl R] [IsTrans (Database Digest) R] {db db' : Database Digest} (h : Performs G db db')
    (h0 : I db) (hstep : ∀ db db', I db → Statement G db db' → I db' ∧ R db db') :
    I db' ∧ R db db' := by
  induction h with
  | refl => exact ⟨h0, Std.Refl.refl _⟩
  | tail _ hs ih =>
      obtain ⟨hI, hR⟩ := hstep _ _ ih.1 hs
      exact ⟨hI, IsTrans.trans _ _ _ ih.2 hR⟩

end

/-- The first grant allows no more than the second. -/
structure Grant.Le (G H : Grant Digest) : Prop where
  conversation : ∀ c, G.conversation c → H.conversation c := by exact fun _ h => h.elim
  message : ∀ db m, G.message db m → H.message db m := by exact fun _ _ h => h.elim
  upload : ∀ a, G.upload a → H.upload a := by exact fun _ h => h.elim
  identify : ∀ id, G.identify id → H.identify id := by exact fun _ h => h.elim
  reopen : ∀ value, G.reopen value → H.reopen value := by exact fun _ h => h.elim
  bind : ∀ id, G.bind id → H.bind id := by exact fun _ h => h.elim
  delete : ∀ db c, G.delete db c → H.delete db c := by exact fun _ _ h => h.elim
  purge : ∀ c, G.purge c → H.purge c := by exact fun _ h => h.elim
  rethread : G.rethread → H.rethread := by exact fun h => h.elim
  finish : ∀ key, G.finish key → H.finish key := by exact fun _ h => h.elim
  ingest : G.ingest → H.ingest := by exact fun h => h.elim
  expire : G.expire → H.expire := by exact fun h => h.elim
  allowlist : G.allowlist → H.allowlist := by exact fun h => h.elim

theorem Statement.mono {G H : Grant Digest} (hle : G.Le H) {db db' : Database Digest}
    (h : Statement G db db') : Statement H db db' := by
  cases h with
  | other n aliases batches entries attachmentEntries webhooks le =>
      exact .other n aliases batches entries attachmentEntries webhooks le
  | conversation c table granted id sequence insert =>
      exact .conversation c table (hle.conversation c granted) id sequence insert
  | turn p state changedAt => exact .turn p state changedAt
  | merge target sources => exact .merge target sources
  | date id latest granted => exact .date id latest (hle.rethread granted)
  | reply id base now granted => exact .reply id base now (hle.rethread granted)
  | reopen id value now granted => exact .reopen id value now (hle.reopen value granted)
  | assign id topic title => exact .assign id topic title
  | message m table granted id shape placed insert =>
      exact .message m table (hle.message db m granted) id shape placed insert
  | settle p outcome => exact .settle p outcome
  | identify id mid at_ granted => exact .identify id mid at_ (hle.identify mid granted)
  | name id mid granted => exact .name id mid (hle.identify mid granted)
  | move target sources granted => exact .move target sources (hle.rethread granted)
  | adopt parent p => exact .adopt parent p
  | delete now ids granted => exact .delete now ids fun c hc => hle.delete db c (granted c hc)
  | event e c events deliveries found sequence id granted insert insertDelivery =>
      exact .event e c events deliveries found sequence id (fun h => hle.purge _ (granted h)) insert
        insertDelivery
  | purge c kept granted => exact .purge c kept (hle.purge c granted)
  | attach a table id key source state lease unleased attempts bound insert =>
      exact .attach a table id key source state lease unleased attempts bound insert
  | upload a table granted id source state unbound lease free insert =>
      exact .upload a table (hle.upload a granted) id source state unbound lease free insert
  | bind m ids granted drawn => exact .bind m ids (hle.bind m granted) drawn
  | inline m id contentId granted => exact .inline m id contentId (hle.bind m granted)
  | advance p f keep granted selects frame =>
      exact .advance p f keep (hle.ingest granted) selects frame
  | expire now p granted selects => exact .expire now p (hle.expire granted) selects
  | tombstone now key => exact .tombstone now key
  | leaseTombstones p f keep key => exact .leaseTombstones p f keep key
  | finish p granted => exact .finish p fun t ht hp => hle.finish _ (granted t ht hp)
  | allowlist entries granted => exact .allowlist entries (hle.allowlist granted)

theorem Performs.mono {G H : Grant Digest} (hle : G.Le H) {db db' : Database Digest}
    (h : Performs G db db') : Performs H db db' :=
  Relation.ReflTransGen.mono (fun _ _ => Statement.mono hle) _ _ h

end ResendConversation
