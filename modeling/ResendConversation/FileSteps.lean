import ResendConversation.Processes

/-! # Steps on stored objects

The ingest runtime copies the bytes of inbound attachments into the object storage, the
reaper removes the objects that tombstones name, and an upload request writes an object and
then its row.  Writes of objects and of rows are separate steps. -/

namespace ResendConversation

open Foundation

variable {Digest : Type}

/-- Writes an object. -/
def System.putObject (s : System Digest) (key : StorageKey) (bytes : List UInt8) : System Digest :=
  { s with objects := s.objects.set (key, bytes) }

/-- Removes an object. -/
def System.removeObject (s : System Digest) (key : StorageKey) : System Digest :=
  { s with objects := s.objects.delete fun o => decide (o.1 = key) }

def attachmentTooLarge : IngestError :=
  ⟨true, js "AttachmentTooLargeError", js "Attachment exceeds the configured size"⟩

def leaseLostError : IngestError :=
  ⟨false, js "Error", js "Attachment lease was lost before completion"⟩

def infrastructureError : IngestError := ⟨false, js "Error", js "Unknown ingest error"⟩

/-- The error that a step meets, as `failAttachment` reads it. -/
def ingestErrorOf (lost : JsString × JsString) : IngestError := ⟨false, lost.1, lost.2⟩

namespace IngestWorker

def start (s : System Digest) (pid : ℕ) (c : Choice Digest) : System Digest :=
  match s.transact (claimPendingAttachments (s.clock c.readAt) c.locked) with
  | (.error _, s) => s
  | (.ok claimed, s) => s.become pid (.ingest { queue := claimed })

/-- The download and the write of the object. -/
def fetch (s : System Digest) (pid : ℕ) (w : IngestWorker) (a : ClaimedAttachment)
    (c : Choice Digest) :
    System Digest :=
  match c.lost with
  | some lost => s.become pid (.ingest { w with phase := some (.failing a (ingestErrorOf lost)) })
  | none =>
      if c.bytes.length > s.config.maxBytes then
        s.become pid (.ingest { w with phase := some (.failing a attachmentTooLarge) })
      else if c.fails then
        (s.putObject a.storageKey c.bytes).become pid
          (.ingest { w with phase := some (.failing a infrastructureError) })
      else
        (s.putObject a.storageKey c.bytes).become pid
          (.ingest { w with phase := some (.storing a c.bytes.length) })

/-- The fenced update of the row. -/
def store (s : System Digest) (pid : ℕ) (w : IngestWorker) (a : ClaimedAttachment) (sizeBytes : ℕ)
    (c : Choice Digest) : System Digest :=
  if c.fails then
    s.become pid (.ingest { w with phase := some (.failing a infrastructureError) })
  else
    match s.transact (storeIngested a sizeBytes) with
    | (.ok true, s) => s.become pid (.ingest { w with phase := none })
    | (.ok false, s) => s.become pid (.ingest { w with phase := some (.lost a) })
    | (.error _, s) =>
        s.become pid (.ingest { w with phase := some (.failing a infrastructureError) })

def step (s : System Digest) (pid : ℕ) (w : IngestWorker) (c : Choice Digest) : System Digest :=
  match w.phase with
  | none =>
      match w.queue with
      | [] => s.finish pid
      | a :: queue => s.become pid (.ingest { queue, phase := some (.fetching a) })
  | some (.fetching a) => w.fetch s pid a c
  | some (.storing a sizeBytes) => w.store s pid a sizeBytes c
  | some (.lost a) =>
      (s.transact (deleteStoredObject s.now a.storageKey)).2.become pid
        (.ingest { w with phase := some (.failing a leaseLostError) })
  | some (.failing a error) =>
      (s.transact (failAttachment s.now a error)).2.become pid (.ingest { w with phase := none })

end IngestWorker

namespace ReaperPhase

/-- The start of a cycle: the expiry of unreferenced uploads. -/
def start (s : System Digest) (pid : ℕ) (c : Choice Digest) : System Digest :=
  (s.transact (expireUnreferencedUploads s.now
    (s.clock c.readAt - unreferencedUploadTtlMs))).2.become
    pid (.reaper .claiming)

/-- The removal of the next object.  A failing request may have removed it all the same. -/
def remove (s : System Digest) (pid : ℕ) (t : ClaimedTombstone) (rest : List ClaimedTombstone)
    (c : Choice Digest) : System Digest :=
  match c.lost with
  | none => (s.removeObject t.storageKey).become pid (.reaper (.finishing t rest))
  | some (name, _) =>
      (if c.fails then s else s.removeObject t.storageKey).become pid
        (.reaper (.retrying t name rest))

def step (s : System Digest) (pid : ℕ) (c : Choice Digest) : ReaperPhase → System Digest
  | .claiming =>
      match s.transact (claimTombstones (s.clock c.readAt) c.locked) with
      | (.error _, s) => s.finish pid
      | (.ok claimed, s) => s.become pid (.reaper (.deleting claimed))
  | .deleting [] => s.finish pid
  | .deleting (t :: rest) => remove s pid t rest c
  | .finishing t rest =>
      (s.transact (finishTombstone t)).2.become pid (.reaper (.deleting rest))
  | .retrying t name rest =>
      (s.transact (retryTombstone s.now t name)).2.become pid (.reaper (.deleting rest))

end ReaperPhase

namespace UploadHandler

/-- The checks of an upload request and the write of its object under a new key. -/
def start (rt : Runtime Digest) (s : System Digest) (pid : ℕ)
    (filename contentType : Option JsString) (c : Choice Digest) : Option (System Digest) :=
  if s.config.attachmentsEnabled ∧ c.bytes ≠ [] ∧ c.bytes.length ≤ s.config.maxBytes then
    let storageKey : StorageKey := ⟨s.config.keyPrefix, s.db.nextId⟩
    let s := { s with db := { s.db with nextId := s.db.nextId + 1 } }.putObject storageKey c.bytes
    if c.fails then some s
    else some (s.become pid (.upload
      { filename := normalizeFilename filename
        contentType := normalizeContentType rt.toLowerCase contentType
        sizeBytes := c.bytes.length
        storageKey }))
  else none

/-- The row of the upload, or the tombstone of its object when the row was not created. -/
def step (s : System Digest) (pid : ℕ) (h : UploadHandler) (c : Choice Digest) : System Digest :=
  if h.failed then (s.transact (deleteStoredObject s.now h.storageKey)).2.finish pid
  else if c.fails then s.become pid (.upload { h with failed := true })
  else
    match s.transact (createUpload s.now h.filename h.contentType h.sizeBytes h.storageKey) with
    | (.ok _, s) => s.finish pid
    | (.error _, s) => s.become pid (.upload { h with failed := true })

end UploadHandler

end ResendConversation
