import ResendConversation.SendSteps

/-! # Steps of the drains

`drainEmailOutbox` and `drainAttachmentOutbox`: the claim, the provider call outside any
transaction, and the transaction that ends the attempt.  A drain of the attachment lane goes
from entry to entry until its limit or until no entry is due. -/

namespace ResendConversation

open Foundation

variable {Digest : Type}

/-- An error of a transaction as the `catch` block around it sees it. -/
def TxError.asSendError : TxError → SendError
  | .error message => .other (js "Error") message
  | .attachmentClaim message => .other (js "AttachmentClaimError") message
  | _ => .other (js "PrismaClientKnownRequestError") []

/-! ### The batch lane -/

/-- `claimOutboxBatch`. -/
def claimOutboxBatch (s : System Digest) (limit : ℕ) (c : Choice Digest) :
    Except TxError (Option (ClaimedBatch Digest)) × System Digest :=
  match s.transact (claimTransaction (s.clock c.readAt) limit c.locked) with
  | (.error error, s) => (.error error, s)
  | (.ok none, s) => (.ok none, s)
  | (.ok (some (leaseToken, loaded)), s) =>
      ((checkClaim leaseToken loaded).map some,
        { s with leases := s.leases ++ [(.batch loaded.batch.id, leaseToken)] })

namespace BatchWorker

/-- The start of a drain: its claim. -/
def start (s : System Digest) (pid limit : ℕ) (c : Choice Digest) : System Digest :=
  match claimOutboxBatch s limit c with
  | (.error error, s) => s.become pid (.batchDrain (.returned (.error error)))
  | (.ok none, s) => s.become pid (.batchDrain (.returned (.ok emptyDrainResult)))
  | (.ok (some batch), s) =>
      s.become pid (.batchDrain (.working batch (.claimed (s.clock c.readAt))))

/-- The window check of a repeated attempt, and the provider call. -/
def send (s : System Digest) (pid : ℕ) (batch : ClaimedBatch Digest) (claimedAt : Time) :
    System Digest :=
  let continueWith := fun (s : System Digest) phase =>
    s.become pid (.batchDrain (.working batch phase))
  if 1 < batch.attemptCount ∧ hasProviderWindowExpired s.now batch.firstAttemptAt then
    continueWith s (.ending (.indeterminate batchWindowExpired))
  else if s.config.resendApiKey then
    let call : ProviderCall :=
      { id := s.db.nextId
        key := .conversationOutbox batch.id
        messageIds := batch.messageIds
        payload := batch.messages.map fun m => buildSendEmailInput m []
        windowStart := batch.firstAttemptAt
        checkedAt := if 1 < batch.attemptCount then s.now else claimedAt }
    continueWith { s with
      db := { s.db with nextId := s.db.nextId + 1 }
      provider := s.provider.place call } (.calling call.id)
  else continueWith s (.ending (decideBatch s.now batch (.threw missingApiKey)))

def step (s : System Digest) (pid : ℕ) (c : Choice Digest) : BatchWorker Digest →
    Option (System Digest)
  | .working batch (.claimed claimedAt) => some (send s pid batch claimedAt)
  | .working batch (.calling callId) =>
      match s.provider.observation callId c.lost with
      | none => none
      | some observation =>
          let s := { s with provider := s.provider.observe callId observation }
          some (s.become pid
            (.batchDrain (.working batch (.ending (decideBatch s.now batch observation)))))
  | .working batch (.ending decision) =>
      match s.transact (finalizeBatch s.config s.now batch decision) with
      | (.ok _, s) =>
          some (s.become pid (.batchDrain (.returned (.ok (drainResult batch decision)))))
      | (.error error, s) => some (s.become pid (.batchDrain (.returned (.error error))))
  | .returned _ => none

end BatchWorker

/-! ### The attachment lane -/

namespace EntryWorker

/-- The claim of the next entry. -/
def claim (s : System Digest) (pid remaining : ℕ) (result : AttachmentOutboxDrainResult)
    (c : Choice Digest) : System Digest :=
  match s.transact (claimEntry (s.clock c.readAt) c.locked) with
  | (.error error, s) => s.become pid (.entryDrain (.returned (.error error)))
  | (.ok none, s) => s.become pid (.entryDrain (.returned (.ok result)))
  | (.ok (some entry), s) =>
      let s : System Digest :=
        { s with leases := s.leases ++ [(.entry entry.message.id, entry.leaseToken)] }
      s.become pid (.entryDrain (.working remaining result entry (.claimed (s.clock c.readAt))))

/-- The window check of a repeated attempt, the attachments, and the provider call. -/
def send (s : System Digest) (pid : ℕ) (entry : ClaimedEntry Digest) (claimedAt : Time)
    (fails : Bool) (continueWith : EntryPhase Digest → Proc Digest) : System Digest :=
  if 1 < entry.attemptCount ∧ hasProviderWindowExpired s.now entry.firstAttemptAt then
    s.become pid (continueWith (.ending (.finalize .indeterminate entryWindowExpired)))
  else
    match buildSendAttachments s entry.message.id fails with
    | .error error => s.become pid (continueWith (.ending (decideEntryError s.now entry error)))
    | .ok attachments =>
        if s.config.resendApiKey then
          let call : ProviderCall :=
            { id := s.db.nextId
              key := .attachmentOutbox entry.message.id
              messageIds := [entry.message.id]
              payload := [buildSendEmailInput entry.message attachments]
              windowStart := entry.firstAttemptAt
              checkedAt := if 1 < entry.attemptCount then s.now else claimedAt }
          let s : System Digest := { s with
            db := { s.db with nextId := s.db.nextId + 1 }
            provider := s.provider.place call }
          s.become pid (continueWith (.calling call.id))
        else
          s.become pid (continueWith (.ending (decideEntryError s.now entry missingApiKey)))

/-- The transaction that ends the attempt.  An error of the accepting transaction is caught
and decided like an error of the call. -/
def finish (s : System Digest) (pid remaining : ℕ) (result : AttachmentOutboxDrainResult)
    (entry : ClaimedEntry Digest) (decision : EntryDecision) : System Digest :=
  match s.transact (endEntry s.config s.now entry decision) with
  | (.ok _, s) =>
      s.become pid (.entryDrain (.idle remaining (result.push (entryOutcome entry decision))))
  | (.error error, s) =>
      match decision with
      | .accept _ => s.become pid (.entryDrain (.working remaining result entry
          (.ending (decideEntryError s.now entry error.asSendError))))
      | _ => s.become pid (.entryDrain (.returned (.error error)))

def step (s : System Digest) (pid : ℕ) (c : Choice Digest) : EntryWorker Digest →
    Option (System Digest)
  | .idle 0 result => some (s.become pid (.entryDrain (.returned (.ok result))))
  | .idle (remaining + 1) result => some (claim s pid remaining result c)
  | .working remaining result entry (.claimed claimedAt) =>
      some (send s pid entry claimedAt c.fails fun phase =>
        .entryDrain (.working remaining result entry phase))
  | .working remaining result entry (.calling callId) =>
      match s.provider.observation callId c.lost with
      | none => none
      | some observation =>
          let s := { s with provider := s.provider.observe callId observation }
          some (s.become pid (.entryDrain (.working remaining result entry
            (.ending (decideEntry s.now entry observation)))))
  | .working remaining result entry (.ending decision) =>
      some (finish s pid remaining result entry decision)
  | .returned _ => none

end EntryWorker

end ResendConversation
