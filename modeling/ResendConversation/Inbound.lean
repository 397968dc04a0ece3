import ResendConversation.Attachments
import ResendConversation.Conversation
import ResendConversation.Foundation.Like
import ResendConversation.LetterCase
import ResendConversation.Routing
import ResendConversation.Threading

/-! # Inbound projection and threading

`lib/email/conversations.ts`: the merge of unassigned conversations into a survivor
(`preserveMergedConversationState`), the projection of a received email into a conversation
(`projectInboundEmail`), and the recording of an outbound Message-ID
(`recordOutboundInternetMessageId`) together with the hydration that precedes a projection.

Queries without an `ORDER BY` return their rows in an order of the database's choosing; a
`Scan` is such a choice. -/

namespace ResendConversation

open Foundation

/-- The order in which a query without `ORDER BY` returns its rows. -/
structure Scan (α : Type) where
  order : List α → List α
  perm : ∀ rows, (order rows).Perm rows

/-- The rows in the order of the table. -/
def Scan.sequential (α : Type) : Scan α := ⟨id, fun _ => List.Perm.refl _⟩

variable {Digest : Type}

/-! ### Received emails -/

structure EmailEventData where
  emailId : JsString
  «from» : JsString
  «to» : List JsString
  createdAt : Time
  messageId : Option JsString := none
  receivedFor : Option (List JsString) := none
deriving DecidableEq

structure ResendEmail where
  messageId : JsString
  «from» : JsString
  «to» : List JsString
  subject : JsString
  createdAt : Option Time
  text : Option JsString := none
  html : Option JsString := none
  headers : Option (List (JsString × JsString)) := none
  replyTo : Option (List JsString) := none
  receivedFor : Option (List JsString) := none
  attachments : Option (List ResendReceivedAttachment) := none
deriving DecidableEq

/-- The hexadecimal digit of a number below sixteen. -/
def hexDigit (n : ℕ) : UInt16 := if n < 10 then (48 + n).toUInt16 else (87 + n).toUInt16

/-- The text of an identifier: 32 hexadecimal digits in five groups. -/
def uuidText (id : Uuid) : JsString :=
  hyphenate (((List.range 32).reverse).map fun i => hexDigit (id / 16 ^ i % 16))

/-- The values that `projectInboundEmail` reads off the event and the email. -/
structure InboundEmail where
  internetMessageId : JsString
  effectiveParentInternetMessageId : Option JsString
  references : List JsString
  displayFrom : Mailbox
  participant : Mailbox
  participantAddress : JsString
  emailCreatedAt : Time
  routingCandidates : List RoutingCandidate
deriving DecidableEq

def parseInboundEmail (rt : Runtime Digest) (event : EmailEventData) (email : ResendEmail) :
    InboundEmail :=
  let inReplyTo :=
    (extractMessageIds (getHeader rt.toLowerCase email.headers (js "in-reply-to"))).getLast?
  let kept := (extractMessageIds (getHeader rt.toLowerCase email.headers (js "references"))).filter
    fun id => id.length ≤ 998
  let rawReferences := kept.drop (kept.length - 100)
  let participant := parseAddress ((orNull event.from).getD email.from)
  { internetMessageId := event.messageId.getD email.messageId
    effectiveParentInternetMessageId := inReplyTo.or rawReferences.getLast?
    references :=
      match inReplyTo with
      | some id => rawReferences.filter (· != id) ++ [id]
      | none => rawReferences
    displayFrom :=
      parseAddress ((getHeader rt.toLowerCase email.headers (js "from")).getD email.from)
    participant
    participantAddress := rt.toLowerCase participant.address
    emailCreatedAt := email.createdAt.getD event.createdAt
    routingCandidates := extractRoutingCandidates rt.toLowerCase
      (email.to ++ event.to ++ email.receivedFor.getD [] ++ event.receivedFor.getD []) }

/-! ### Messages with their conversation -/

/-- A conversation message together with its conversation row. -/
structure ThreadedMessage (Digest : Type) where
  message : EmailMessage Digest
  conversation : EmailConversation

/-- The messages that `hasConversation` keeps, with their conversations. -/
def withConversations (db : Database Digest) (messages : List (EmailMessage Digest)) :
    List (ThreadedMessage Digest) :=
  messages.filterMap fun m =>
    match m.kind, m.conversationId with
    | .conversation, some id => (db.conversations.get? id).map fun c => ⟨m, c⟩
    | _, _ => none

/-- The messages of a query, with their conversations, whose participant has the address. -/
def eligibleFor (rt : Runtime Digest) (db : Database Digest) (scan : Scan (EmailMessage Digest))
    (participantAddress : JsString) (p : EmailMessage Digest → Bool) :
    List (ThreadedMessage Digest) :=
  (withConversations db (scan.order (db.messages.select p))).filter fun t =>
    rt.toLowerCase t.conversation.participantAddress == participantAddress

/-- The unassigned conversations of the messages, other than the target. -/
def unassignedConversations (target : Uuid) (related : List (ThreadedMessage Digest)) :
    List Uuid :=
  unique ((related.filter fun t => t.conversation.id != target &&
    t.conversation.topicType.isNone).map fun t => t.conversation.id)

/-! ### Merging -/

/-- One row of `createMany` with `skipDuplicates`. -/
def createRoutingAlias (conversationId : Uuid) (source : EmailConversation) :
    Transaction Digest Unit := do
  let db ← get
  match source.replyToBaseAddress with
  | none => pure ()
  | some baseAddress =>
      if db.routingAliases.rows.any fun a =>
          a.routingToken == source.routingToken && a.baseAddress == baseAddress then pure ()
      else do
        let id ← freshId
        insertRow Database.routingAliases (fun db t => { db with routingAliases := t })
          { id, conversationId, routingToken := source.routingToken, baseAddress }

/-- The columns of the survivor of a merge. -/
def mergedConversation (sources : List EmailConversation) (target c : EmailConversation) :
    EmailConversation :=
  let promotedSource := sources.find? fun s =>
    s.apiVersion == some .v2 && s.replyToBaseAddress.isSome
  let selectedSource := promotedSource.or (sources.find? fun s => s.replyToBaseAddress.isSome)
  let apiVersion :=
    if target.apiVersion = some .v2 ∨ promotedSource.isSome then some .v2
    else target.apiVersion.or (sources.findSome? EmailConversation.apiVersion)
  let merged := mergeConversationState (target :: sources)
  { c with
    apiVersion
    replyToBaseAddress :=
      target.replyToBaseAddress.or (selectedSource.bind EmailConversation.replyToBaseAddress)
    replyToRequiresAllowlist :=
      if apiVersion = some .v2 then
        (target.apiVersion == some .v2 && target.replyToRequiresAllowlist) ||
          promotedSource.any EmailConversation.replyToRequiresAllowlist
      else target.replyToRequiresAllowlist
    state := (merged.map Prod.fst).getD c.state
    stateChangedAt := (merged.map Prod.snd).getD c.stateChangedAt }

def preserveMergedConversationState (target : EmailConversation)
    (sources : List EmailConversation) :
    Transaction Digest Unit :=
  match unique (sources.filter fun s => s.id != target.id) with
  | [] => pure ()
  | uniqueSources => do
      let ids := uniqueSources.map EmailConversation.id
      modify fun db => { db with
        routingAliases := db.routingAliases.update (fun a => ids.contains a.conversationId) fun a =>
          { a with conversationId := target.id } }
      uniqueSources.forM (createRoutingAlias target.id)
      let _ ← updateConversation target.id (mergedConversation uniqueSources target)
      pure ()

def recordConversationMerges (config : Config) (target : Uuid) (sources : List Uuid)
    (occurredAt : Time) : Transaction Digest Unit := do
  sources.forM fun source => do
    let _ ← appendConversationEvent config
      { conversationId := source
        type := .merged
        occurredAt
        actor := .system
        cause := js "thread_reconciliation"
        mergedIntoConversationId := some target }
    pure ()
  let _ ← appendConversationEvent config
    { conversationId := target
      type := .merged
      occurredAt
      actor := .system
      cause := js "thread_reconciliation" }
  pure ()

/-- `SET conversation_id = target` for every message of the source conversations. -/
def moveMessages (target : Uuid) (sources : List Uuid) : Transaction Digest Unit := do
  let _ ← updateMessages (fun m => m.conversationId.any sources.contains) fun m =>
    { m with conversationId := some target }
  pure ()

/-- Empties the source conversations into the target and deletes them; `adopt` runs before
the deletion. -/
def absorbConversations (config : Config) (now : Time) (target : Uuid) (sources : List Uuid)
    (occurredAt : Time) (adopt : Transaction Digest Unit) : Transaction Digest Unit := do
  moveMessages target sources
  recordConversationMerges config target sources occurredAt
  adopt
  modify (deleteConversations now sources)

/-- `lastMessageAt` becomes the latest message time of the conversation. -/
def refreshLastMessageAt (conversationId : Uuid) : Transaction Digest Unit := do
  let db ← get
  match ((db.messages.select fun m => m.conversationId == some conversationId).map
      EmailMessage.emailCreatedAt).max? with
  | none => pure ()
  | some latest =>
      let _ ← updateConversation conversationId fun c => { c with lastMessageAt := latest }
      pure ()

/-- `SET parent_message_id` for the selected messages. -/
def adoptReplies (parentMessageId : Uuid) (p : EmailMessage Digest → Bool) :
    Transaction Digest Unit := do
  let _ ← updateMessages p fun m => { m with parentMessageId := some parentMessageId }
  pure ()

/-! ### Outbound Message-IDs -/

/-- Records the Message-ID of an outbound message and adopts the replies that wait for it. -/
def recordOutboundInternetMessageId (rt : Runtime Digest) (config : Config)
    (scan : Scan (EmailMessage Digest)) (now : Time) (messageId : Uuid)
    (internetMessageId : JsString) (emailCreatedAt : Time) :
    Transaction Digest (EmailMessage Digest) := do
  let db ← get
  let outbound ← Tx.orThrow (db.messages.get? messageId) .notFound
  let invalid := TxError.error (js "Cannot record sent metadata on an inbound message")
  Tx.ensure (outbound.direction == .outbound && outbound.kind == .conversation) invalid
  let conversationId ← Tx.orThrow outbound.conversationId invalid
  let conversation ← Tx.orThrow (db.conversations.get? conversationId) invalid
  let updated ← updateMessage outbound.id fun m =>
    { m with internetMessageId := some internetMessageId, emailCreatedAt := emailCreatedAt }
  let db ← get
  let eligibleChildren := eligibleFor rt db scan (rt.toLowerCase conversation.participantAddress)
    fun m => m.parentMessageId.isNone && m.inReplyToInternetMessageId == some internetMessageId
  let unassigned := unassignedConversations conversationId eligibleChildren
  let adopt := adoptReplies outbound.id fun m =>
    (eligibleChildren.map fun t => t.message.id).contains m.id &&
      m.conversationId == some conversationId && m.parentMessageId.isNone
  if unassigned.isEmpty then adopt
  else do
    preserveMergedConversationState conversation
      ((eligibleChildren.map ThreadedMessage.conversation).filter fun c => unassigned.contains c.id)
    absorbConversations config now conversationId unassigned now adopt
  refreshLastMessageAt conversationId
  pure updated

def maxOutboundHydrationCandidates : ℕ := 10
def outboundHydrationRetryWindowMs : Time := 24 * 60 * 60 * 1000

/-- `equals` with `mode: 'insensitive'`, which reaches the database as `ILIKE`: in the participant's
address `%`, `_` and the backslash have the meaning they have in a pattern. -/
def matchesParticipant (rt : Runtime Digest) (participantAddress stored : JsString) : Option Bool :=
  like (codePoints (rt.toLowerCase participantAddress)) (codePoints (rt.toLowerCase stored))

/-- The match of the conversation of a message. -/
def EmailMessage.matchesParticipant (rt : Runtime Digest) (db : Database Digest)
    (participantAddress : JsString) (m : EmailMessage Digest) : Option Bool :=
  match m.conversationId.bind db.conversations.get? with
  | none => some false
  | some c => ResendConversation.matchesParticipant rt participantAddress c.participantAddress

/-- The Message-ID makes hydration needless: the preferred one or, without one, an ancestor's. -/
def recordedAncestor (ids : List JsString) (preferred : Option JsString) (id : JsString) : Bool :=
  match preferred.bind orNull with
  | some preferred => id == preferred
  | none => ((unique ids).filter fun id => !id.isEmpty).contains id

/-- The outbound messages whose Message-ID `hydrateReferencedOutboundMessages` looks up, or `none`
where the database refuses the address as a pattern.  It matches no row then, so that a query
fails as soon as it compares the address with a row that the other conditions leave. -/
def hydrationCandidates (rt : Runtime Digest) (db : Database Digest) (participantAddress : JsString)
    (internetMessageIds : List JsString) (preferred : Option JsString) :
    Option (List (EmailMessage Digest)) :=
  let ofParticipant := EmailMessage.matchesParticipant rt db participantAddress
  let recorded := fun m : EmailMessage Digest =>
    m.internetMessageId.any (recordedAncestor internetMessageIds preferred)
  let unrecorded := fun m : EmailMessage Digest =>
    m.direction == .outbound && m.state == .accepted && m.resendEmailId.isSome &&
      m.internetMessageId.isNone
  if ((unique internetMessageIds).filter fun id => !id.isEmpty).isEmpty then some []
  else if db.messages.rows.any fun m => recorded m && (ofParticipant m).isNone then none
  else if db.messages.rows.any fun m => recorded m && ofParticipant m == some true then some []
  else if db.messages.rows.any fun m => unrecorded m && (ofParticipant m).isNone then none
  else
    some ((db.messages.selectSorted (fun m => unrecorded m && ofParticipant m == some true)
      fun a b => b.emailCreatedAt < a.emailCreatedAt ∨
        (a.emailCreatedAt = b.emailCreatedAt ∧ b.id ≤ a.id)).take
          (maxOutboundHydrationCandidates + 1))

/-! ### Projection -/

/-- The conversation that a routing tag of a recipient names, when it names exactly one. -/
def routedConversation (rt : Runtime Digest) (db : Database Digest) (inbound : InboundEmail)
    (replyToBaseAddress : JsString) : Option EmailConversation :=
  let candidates := inbound.routingCandidates
  let eligible := db.conversations.rows.filter fun c =>
    rt.toLowerCase c.participantAddress == inbound.participantAddress &&
      ((candidates.any fun candidate => candidate.routingToken == c.routingToken &&
          candidate.baseAddress ==
            c.replyToBaseAddress.getD (rt.toLowerCase (JsString.trim replyToBaseAddress))) ||
        (db.routingAliases.select fun a => a.conversationId == c.id).any fun a =>
          candidates.any fun candidate => candidate.routingToken == a.routingToken &&
            candidate.baseAddress == a.baseAddress)
  match eligible with
  | [c] => some c
  | _ => none

/-- The stored messages related to a received email. -/
structure RelatedMessages (Digest : Type) where
  parent : Option (ThreadedMessage Digest)
  nearestAncestor : Option (ThreadedMessage Digest)
  waitingChildren : List (ThreadedMessage Digest)
  eligible : List (ThreadedMessage Digest)

def findRelatedMessages (rt : Runtime Digest) (db : Database Digest)
    (scan : Scan (EmailMessage Digest)) (inbound : InboundEmail) : RelatedMessages Digest :=
  let ancestry := inbound.references.reverse
  let eligible := eligibleFor rt db scan inbound.participantAddress fun m =>
    m.kind == .conversation && m.internetMessageId.any ancestry.contains
  { parent := inbound.effectiveParentInternetMessageId.bind fun id =>
      eligible.find? fun t => t.message.internetMessageId == some id
    nearestAncestor := ancestry.findSome? fun id =>
      eligible.find? fun t => t.message.internetMessageId == some id
    waitingChildren := eligibleFor rt db scan inbound.participantAddress fun m =>
      m.kind == .conversation && m.parentMessageId.isNone &&
        m.inReplyToInternetMessageId == some inbound.internetMessageId
    eligible }

/-- The existing conversation that a received email joins: assigned conversations before
unassigned ones, threading before routing. -/
def chooseConversation (rt : Runtime Digest) (db : Database Digest) (inbound : InboundEmail)
    (related : RelatedMessages Digest) (replyToBaseAddress : JsString) : Option EmailConversation :=
  let assigned := fun c : EmailConversation => c.topicType.isSome
  let parentConversation := related.parent.map ThreadedMessage.conversation
  let ancestorConversation := related.nearestAncestor.map ThreadedMessage.conversation
  let waiting := related.waitingChildren.map ThreadedMessage.conversation
  (parentConversation.filter assigned).or <|
    (ancestorConversation.filter assigned).or <|
      (waiting.find? assigned).or <|
        parentConversation.or <| ancestorConversation.or <| waiting.head?.or <|
          routedConversation rt db inbound replyToBaseAddress

/-- The conversation a received email starts. -/
def newInboundConversation (email : ResendEmail) (inbound : InboundEmail) (now : Time) :
    Transaction Digest EmailConversation := do
  let id ← freshId
  let token ← freshId
  let c : EmailConversation :=
    { id
      routingToken := uuidText token
      apiVersion := none
      topicType := none
      externalTopicId := none
      title := normalizeSubject email.subject
      subject := normalizeSubject email.subject
      participantAddress := inbound.participant.address
      participantName := inbound.displayFrom.name
      replyToBaseAddress := none
      replyToRequiresAllowlist := false
      state := .awaitingUs
      stateChangedAt := inbound.emailCreatedAt
      lastMessageAt := inbound.emailCreatedAt
      createdAt := now
      eventSequence := 0 }
  createConversation c
  pure c

/-- Merges the unassigned conversations of related messages into the chosen one. -/
def mergeUnassigned (config : Config) (now : Time) (conversation : EmailConversation)
    (related : List (ThreadedMessage Digest)) (occurredAt : Time) : Transaction Digest Unit :=
  let unassigned := unassignedConversations conversation.id related
  if unassigned.isEmpty then pure ()
  else do
    preserveMergedConversationState conversation
      ((related.map ThreadedMessage.conversation).filter fun c => unassigned.contains c.id)
    absorbConversations config now conversation.id unassigned occurredAt (pure ())

/-- The row of a received email. -/
def inboundMessage (event : EmailEventData) (email : ResendEmail) (inbound : InboundEmail)
    (now : Time) (id conversationId : Uuid) (parentMessageId : Option Uuid) :
    EmailMessage Digest where
  id := id
  conversationId := some conversationId
  parentMessageId := parentMessageId
  direction := .inbound
  state := .received
  resendEmailId := some event.emailId
  internetMessageId := some inbound.internetMessageId
  inReplyToInternetMessageId := inbound.effectiveParentInternetMessageId
  referenceInternetMessageIds := inbound.references
  fromAddress := inbound.participant.address
  fromName := inbound.displayFrom.name
  toAddress := (email.to.head?.or event.to.head?).getD []
  replyToAddress := email.replyTo.bind List.head?
  subject := email.subject
  textBody := email.text
  htmlBody := email.html
  emailCreatedAt := inbound.emailCreatedAt
  createdAt := now

/-- The events of a projected email, the adoption of waiting replies and the transition of
the conversation. -/
def finishProjection (config : Config) (inbound : InboundEmail) (conversation : EmailConversation)
    (createdConversation : Bool) (messageId : Uuid) (attachmentCount : ℕ) :
    Transaction Digest Unit := do
  let event : ConversationEventInput :=
    { conversationId := conversation.id
      type := .created
      occurredAt := inbound.emailCreatedAt
      actor := .participant
      cause := js "inbound_email" }
  if createdConversation then
    let _ ← appendConversationEvent config event
    pure ()
  else pure ()
  let _ ← appendConversationEvent config
    { event with
      type := .messageReceived
      messageId := some messageId
      attachmentCount := if attachmentCount = 0 then none else some attachmentCount }
  adoptReplies messageId fun m => m.parentMessageId.isNone &&
    m.inReplyToInternetMessageId == some inbound.internetMessageId &&
    m.conversationId == some conversation.id
  refreshLastMessageAt conversation.id
  let stateChanged ← markConversationAwaitingUs conversation.id inbound.emailCreatedAt
  if stateChanged && !createdConversation then
    let _ ← appendConversationEvent config
      { event with
        type := .stateChanged
        state := some (some conversation.state, .awaitingUs) }
    pure ()
  else pure ()

/-- A stored message that carries the provider id or the Message-ID of a received email. -/
def carriesIdentity (event : EmailEventData) (inbound : InboundEmail) (m : EmailMessage Digest) :
    Bool :=
  m.resendEmailId == some event.emailId || m.internetMessageId == some inbound.internetMessageId

/-- The writes of a projection, once the email has its conversation. -/
def projectInto (rt : Runtime Digest) (config : Config) (now : Time) (event : EmailEventData)
    (email : ResendEmail) (related : RelatedMessages Digest) (conversation : EmailConversation)
    (createdConversation : Bool) : Transaction Digest (EmailMessage Digest) := do
  let inbound := parseInboundEmail rt event email
  mergeUnassigned config now conversation (related.eligible ++ related.waitingChildren)
    inbound.emailCreatedAt
  let message ← createMessage fun id =>
    inboundMessage event email inbound now id conversation.id
      (related.parent.map fun t => t.message.id)
  let attachmentCount ← projectInboundAttachments rt.toLowerCase config now message.id
    event.emailId (email.attachments.getD [])
  finishProjection config inbound conversation createdConversation message.id attachmentCount
  pure message

/-- The transaction of `projectInboundEmail`. -/
def projectInboundEmail (rt : Runtime Digest) (config : Config) (scan : Scan (EmailMessage Digest))
    (now : Time) (event : EmailEventData) (email : ResendEmail) (replyToBaseAddress : JsString) :
    Transaction Digest (EmailMessage Digest) := do
  let inbound := parseInboundEmail rt event email
  let db ← get
  match (scan.order (db.messages.select fun m =>
      m.kind == .conversation && carriesIdentity event inbound m)).head? with
  | some existing => pure existing
  | none =>
      let related := findRelatedMessages rt db scan inbound
      match chooseConversation rt db inbound related replyToBaseAddress with
      | some conversation => projectInto rt config now event email related conversation false
      | none => do
          let conversation ← newInboundConversation email inbound now
          projectInto rt config now event email related conversation true

/-- The lookup after a unique violation, without the filter on the kind. -/
def findProjected (rt : Runtime Digest) (db : Database Digest) (scan : Scan (EmailMessage Digest))
    (event : EmailEventData) (email : ResendEmail) : Option (EmailMessage Digest) :=
  (scan.order (db.messages.select (carriesIdentity event (parseInboundEmail rt event email)))).head?

end ResendConversation
