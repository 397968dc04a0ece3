import ResendConversation.Payload

/-! # Attachments

The database side of the attachment subsystem: inbound metadata projection
(`lib/attachments/projection.ts`), binding of uploads to a message
(`lib/attachments/claim.ts`), the ingest runtime (`lib/attachments/ingest-runtime.ts`), the
reaper (`lib/attachments/reaper.ts`) and the row of an upload
(`routes/attachments/v2/route.ts`).  The objects themselves are part of the system state. -/

namespace ResendConversation

open Foundation JsString

variable {Digest : Type}

/-! ### Inbound metadata -/

structure ResendReceivedAttachment where
  id : JsString
  filename : Option JsString
  size : ℤ
  contentType : Option JsString
  contentDisposition : Option JsString
  contentId : Option JsString
deriving DecidableEq

def maxFilenameLength : ℕ := 512
def maxContentTypeLength : ℕ := 255
def maxContentIdLength : ℕ := 255
def defaultContentType : JsString := js "application/octet-stream"
def defaultFilename : JsString := js "attachment"

def stripControlCharacters (value : JsString) : JsString :=
  value.filter fun c => 32 ≤ c && c != 127 && c != 34

def normalizeFilename (value : Option JsString) : JsString :=
  match value with
  | none => defaultFilename
  | some value =>
      let base := (split 47 (replaceAll 92 [47] value)).getLastD []
      let sanitized := trim (stripControlCharacters base)
      if sanitized.isEmpty ∨ sanitized = js "." ∨ sanitized = js ".." then defaultFilename
      else sanitized.take maxFilenameLength

def isContentTypeCharacter (c : UInt16) : Bool :=
  isLowerLetter c || isDigit c || (js "!#$&^_.+-").contains c

/-- A type or a subtype: a letter or digit, then content type characters. -/
def isContentTypeToken (s : JsString) : Bool :=
  (s.head?.any fun c => isLowerLetter c || isDigit c) && s.all isContentTypeCharacter

def normalizeContentType (toLowerCase : JsString → JsString) (value : Option JsString) : JsString :=
  match value with
  | none => defaultContentType
  | some value =>
      let sanitized := toLowerCase (trim ((split 59 value).headD []))
      match split 47 sanitized with
      | [type, subtype] =>
          if isContentTypeToken type && isContentTypeToken subtype then
            sanitized.take maxContentTypeLength
          else defaultContentType
      | _ => defaultContentType

def normalizeContentId (value : Option JsString) : Option JsString :=
  value.bind fun value =>
    let value := if value.head? = some 60 then value.tail else value
    let value := if value.getLast? = some 62 then value.dropLast else value
    let sanitized := trim value
    if sanitized.isEmpty || sanitized.any (fun c => isSpace c || c == 60 || c == 62) then none
    else some (sanitized.take maxContentIdLength)

def normalizeDisposition (toLowerCase : JsString → JsString) (value : Option JsString) :
    EmailAttachmentDisposition :=
  if value.any fun v => toLowerCase (trim v) == js "inline" then .inline else .attachment

/-- The texts in the columns of a row. -/
def EmailAttachment.texts (a : EmailAttachment) : List JsString :=
  [a.filename, a.contentType] ++ a.stateDetail.toList ++ a.contentId.toList ++
    a.resendEmailId.toList ++ a.resendAttachmentId.toList

/-- `emailAttachment.create`, with the unique keys of the table. -/
def createAttachment (a : EmailAttachment) : Transaction Digest Unit := do
  checkTexts a.texts
  let db ← get
  Tx.ensure (!db.attachments.rows.any fun b => b.storageKey == a.storageKey) .uniqueViolation
  Tx.ensure (a.messageId.all fun m => (db.messages.get? m).isSome) .foreignKeyViolation
  insertRow Database.attachments (fun db t => { db with attachments := t }) a

/-- One row of `createMany` with `skipDuplicates`: whether it was inserted. -/
def projectInboundAttachment (toLowerCase : JsString → JsString) (config : Config) (now : Time)
    (messageId : Uuid) (resendEmailId : JsString) (attachment : ResendReceivedAttachment) :
    Transaction Digest Bool := do
  let db ← get
  if db.attachments.rows.any fun b => b.resendEmailId == some resendEmailId &&
      b.resendAttachmentId == some attachment.id then pure false
  else
    let id ← freshId
    let key ← freshId
    createAttachment
      { id
        messageId := some messageId
        source := .inbound
        state := .pending
        filename := normalizeFilename attachment.filename
        contentType := normalizeContentType toLowerCase attachment.contentType
        contentDisposition := normalizeDisposition toLowerCase attachment.contentDisposition
        contentId := normalizeContentId attachment.contentId
        sizeBytes := attachment.size.toNat
        storageKey := ⟨config.keyPrefix, key⟩
        resendEmailId := some resendEmailId
        resendAttachmentId := some attachment.id
        nextAttemptAt := now
        createdAt := now }
    pure true

/-- Inserts the rows one after another and counts those inserted. -/
def countCreated {α : Type} (create : α → Transaction Digest Bool) : List α → Transaction Digest ℕ
  | [] => pure 0
  | a :: as => do
      let created ← create a
      let rest ← countCreated create as
      pure (if created then rest + 1 else rest)

def projectInboundAttachments (toLowerCase : JsString → JsString) (config : Config) (now : Time)
    (messageId : Uuid) (resendEmailId : JsString) (attachments : List ResendReceivedAttachment) :
    Transaction Digest ℕ :=
  if config.attachmentsEnabled then
    countCreated (projectInboundAttachment toLowerCase config now messageId resendEmailId)
      ((attachments.filter fun a => !a.id.isEmpty).take config.maxCount)
  else pure 0

/-! ### Binding uploads to a message -/

def updateAttachments (p : EmailAttachment → Bool) (f : EmailAttachment → EmailAttachment)
    (keep : ∀ a, (f a).id = a.id := by exact fun _ => Eq.trans rfl rfl) : Transaction Digest ℕ :=
  modifyGet fun db =>
    (db.attachments.count p, { db with attachments := db.attachments.update p f keep })

def setContentIds (messageId : Uuid) : List EmailAttachmentRefInput → Transaction Digest Unit
  | [] => pure ()
  | ref :: refs => do
      let _ ← updateAttachments (fun a => a.id == ref.id && a.messageId == some messageId) fun a =>
        { a with contentId := ref.contentId, contentDisposition := .inline }
      setContentIds messageId refs

/-- Binds previously uploaded attachments to a message, all of them or none. -/
def claimAttachmentsForMessage (config : Config) (messageId : Uuid)
    (refs : Option (List EmailAttachmentRefInput)) : Transaction Digest ℕ :=
  match refs with
  | none | some [] => pure 0
  | some refs => do
      Tx.ensure config.attachmentsEnabled (.attachmentClaim (js "Attachments are disabled"))
      let ids := refs.map EmailAttachmentRefInput.id
      let claimed ← updateAttachments
        (fun a => ids.contains a.id && a.messageId.isNone && a.source == .upload &&
          a.state == .stored)
        fun a => { a with messageId := some messageId }
      Tx.ensure (claimed == ids.length) (.attachmentClaim
        (js "One or more attachments are unknown, already used, or not stored"))
      setContentIds messageId (refs.filter fun ref => (ref.contentId.bind orNull).isSome)
      let db ← get
      let total := ((db.attachments.select fun a => a.messageId == some messageId).map
        EmailAttachment.sizeBytes).sum
      Tx.ensure (total ≤ config.maxTotalBytes) (.attachmentClaim
        (js s!"Attachments exceed the {config.maxTotalBytes} byte total for one message"))
      pure claimed

/-- `listMessageAttachments`. -/
def listMessageAttachments (db : Database Digest) (messageId : Uuid) : List EmailAttachment :=
  db.attachments.selectSorted (fun a => a.messageId == some messageId) fun a b => a.id ≤ b.id

/-! ### Ingest -/

def ingestLeaseMs : Time := 60_000
def ingestBatchSize : ℕ := 10
def ingestRetryDelaysMs : List Time := [1_000, 5_000, 30_000, 120_000, 300_000]
def ingestMaxAttempts : ℕ := ingestRetryDelaysMs.length + 1

structure ClaimedAttachment where
  id : Uuid
  resendEmailId : JsString
  resendAttachmentId : JsString
  storageKey : StorageKey
  contentType : JsString
  leaseToken : Uuid
  attemptCount : ℕ
deriving DecidableEq

def EmailAttachment.ready (now : Time) (a : EmailAttachment) : Bool :=
  a.state == .pending && a.source == .inbound && a.resendEmailId.isSome &&
    a.resendAttachmentId.isSome && a.nextAttemptAt ≤ now && a.leaseUntil.all (· ≤ now)

/-- Claims ready rows; `locked` are the rows that another transaction holds. -/
def claimPendingAttachments (now : Time) (locked : List Uuid) :
    Transaction Digest (List ClaimedAttachment) := do
  let token ← freshId
  let db ← get
  let rows := (db.attachments.selectSorted (fun a => a.ready now && !locked.contains a.id)
    fun a b => a.nextAttemptAt < b.nextAttemptAt ∨
      (a.nextAttemptAt = b.nextAttemptAt ∧ a.id ≤ b.id)).take ingestBatchSize
  let _ ← updateAttachments (fun a => (rows.map EmailAttachment.id).contains a.id) fun a =>
    { a with
      leaseToken := some token
      leaseUntil := some (now + ingestLeaseMs)
      attemptCount := a.attemptCount + 1 }
  pure (rows.map fun row =>
    { id := row.id
      resendEmailId := row.resendEmailId.getD []
      resendAttachmentId := row.resendAttachmentId.getD []
      storageKey := row.storageKey
      contentType := row.contentType
      leaseToken := token
      attemptCount := row.attemptCount + 1 })

/-- The fenced update at the end of `ingest`; whether the lease was still held. -/
def storeIngested (attachment : ClaimedAttachment) (sizeBytes : ℕ) : Transaction Digest Bool := do
  let updated ← updateAttachments
    (fun a => a.id == attachment.id && a.leaseToken == some attachment.leaseToken) fun a =>
      { a with
        state := .stored
        stateDetail := none
        sizeBytes := sizeBytes
        leaseToken := none
        leaseUntil := none
        lastErrorCode := none }
  pure (updated == 1)

/-- Why an ingest attempt failed. -/
structure IngestError where
  tooLarge : Bool
  name : JsString
  message : JsString
deriving DecidableEq

def failAttachment (now : Time) (attachment : ClaimedAttachment) (error : IngestError) :
    Transaction Digest Unit := do
  let owned := fun a : EmailAttachment =>
    a.id == attachment.id && a.leaseToken == some attachment.leaseToken
  if error.tooLarge ∨ attachment.attemptCount ≥ ingestMaxAttempts then
    let _ ← updateAttachments owned fun a =>
      { a with
        state := .failed
        stateDetail := some (error.message.take 1000)
        leaseToken := none
        leaseUntil := none
        lastErrorCode := some (error.name.take 64) }
    pure ()
  else
    let _ ← updateAttachments owned fun a =>
      { a with
        nextAttemptAt := now + retryDelay ingestRetryDelaysMs attachment.attemptCount
        leaseToken := none
        leaseUntil := none
        lastErrorCode := some (error.name.take 64) }
    pure ()

/-! ### Reaper -/

def reaperLeaseMs : Time := 60_000
def reaperBatchSize : ℕ := 50
def reaperRetryDelaysMs : List Time := [30_000, 120_000, 300_000, 900_000]
def unreferencedUploadTtlMs : Time := 24 * 60 * 60 * 1000

structure ClaimedTombstone where
  id : Uuid
  storageKey : StorageKey
  leaseToken : Uuid
  attemptCount : ℕ
deriving DecidableEq

/-- Records a stored object for deletion. -/
def deleteStoredObject (now : Time) (key : StorageKey) : Transaction Digest Unit :=
  modify (tombstoneFor now key)

/-- Deletes the uploads that no send has referenced within the time to live. -/
def expireUnreferencedUploads (now cutoff : Time) : Transaction Digest Unit :=
  modify (deleteAttachments now fun a => a.source == .upload && a.messageId.isNone &&
    a.createdAt < cutoff)

def StoredObjectTombstone.ready (now : Time) (t : StoredObjectTombstone) : Bool :=
  t.nextAttemptAt ≤ now && t.leaseUntil.all (· ≤ now)

def claimTombstones (now : Time) (locked : List Uuid) :
    Transaction Digest (List ClaimedTombstone) := do
  let token ← freshId
  let db ← get
  let rows := (db.tombstones.selectSorted (fun t => t.ready now && !locked.contains t.id)
    fun a b => a.nextAttemptAt < b.nextAttemptAt ∨
      (a.nextAttemptAt = b.nextAttemptAt ∧ a.id ≤ b.id)).take reaperBatchSize
  modify fun db => { db with
    tombstones := db.tombstones.update
      (fun t => (rows.map StoredObjectTombstone.id).contains t.id) fun t =>
        { t with
          leaseToken := some token
          leaseUntil := some (now + reaperLeaseMs)
          attemptCount := t.attemptCount + 1 } }
  pure (rows.map fun row =>
    { id := row.id
      storageKey := row.storageKey
      leaseToken := token
      attemptCount := row.attemptCount + 1 })

/-- The removal of a tombstone whose object is gone. -/
def finishTombstone (tombstone : ClaimedTombstone) : Transaction Digest Unit :=
  modify fun db => { db with
    tombstones := db.tombstones.delete fun t =>
      t.id == tombstone.id && t.leaseToken == some tombstone.leaseToken }

def retryTombstone (now : Time) (tombstone : ClaimedTombstone) (errorName : JsString) :
    Transaction Digest Unit :=
  modify fun db => { db with
    tombstones := db.tombstones.update
      (fun t => t.id == tombstone.id && t.leaseToken == some tombstone.leaseToken) fun t =>
        { t with
          nextAttemptAt := now + retryDelay reaperRetryDelaysMs tombstone.attemptCount
          leaseToken := none
          leaseUntil := none
          lastErrorCode := some (errorName.take 64) } }

/-! ### Upload -/

/-- The row that an upload request creates after its object is written. -/
def createUpload (now : Time) (filename contentType : JsString) (sizeBytes : ℕ)
    (storageKey : StorageKey) : Transaction Digest Uuid := do
  let id ← freshId
  createAttachment
    { id, source := .upload, state := .stored, filename, contentType, sizeBytes, storageKey
      nextAttemptAt := now, createdAt := now }
  pure id

end ResendConversation
