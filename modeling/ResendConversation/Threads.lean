import ResendConversation.Foundation.Events
import ResendConversation.Foundation.Forest
import ResendConversation.Operator
import ResendConversation.SendRequests

/-! # Threads

What the conversations, their messages and their routing aliases are for, without the rest of
the database.  A `Threads` keeps of a message and of a conversation only what threading reads,
and changes by `ThreadEvent`s: a conversation is begun, opened again, promoted, assigned,
merged or deleted, a message is stored, learns its Message-ID or is adopted by its parent.
`Threads.Enabled` says when an event can happen, `Threads.apply` what it does.  The
transactions of the service are shown elsewhere to be explained by such events. -/

namespace ResendConversation

open Foundation

variable {Digest : Type}

/-! ### Views -/

/-- The part of a message that threading reads and writes. -/
structure ThreadView where
  kind : EmailMessageKind
  direction : EmailDirection
  conversationId : Option Uuid
  parentMessageId : Option Uuid
  internetMessageId : Option JsString
  inReplyToInternetMessageId : Option JsString
  fromAddress : JsString
  replyToAddress : Option JsString
deriving DecidableEq

def EmailMessage.threadView (m : EmailMessage Digest) : ThreadView where
  kind := m.kind
  direction := m.direction
  conversationId := m.conversationId
  parentMessageId := m.parentMessageId
  internetMessageId := m.internetMessageId
  inReplyToInternetMessageId := m.inReplyToInternetMessageId
  fromAddress := m.fromAddress
  replyToAddress := m.replyToAddress

/-- The part of a conversation that decides its identity, its routing and its state. -/
structure ConversationView where
  routingToken : JsString
  apiVersion : Option EmailApiVersion
  topicType : Option JsString
  externalTopicId : Option JsString
  participantAddress : JsString
  replyToBaseAddress : Option JsString
  replyToRequiresAllowlist : Bool
  state : ConversationState
deriving DecidableEq

def EmailConversation.view (c : EmailConversation) : ConversationView where
  routingToken := c.routingToken
  apiVersion := c.apiVersion
  topicType := c.topicType
  externalTopicId := c.externalTopicId
  participantAddress := c.participantAddress
  replyToBaseAddress := c.replyToBaseAddress
  replyToRequiresAllowlist := c.replyToRequiresAllowlist
  state := c.state

/-- The routing tag that an alias stands for. -/
def EmailConversationRoutingAlias.candidate (a : EmailConversationRoutingAlias) :
    RoutingCandidate :=
  ⟨a.routingToken, a.baseAddress⟩

/-- The routing tag of a conversation whose Reply-To base is fixed. -/
def ConversationView.candidate (c : ConversationView) : Option RoutingCandidate :=
  c.replyToBaseAddress.map fun base => ⟨c.routingToken, base⟩

structure Threads where
  nextId : Uuid
  messages : Uuid → Option ThreadView
  conversations : Uuid → Option ConversationView
  aliases : Set (Uuid × RoutingCandidate)

@[ext] theorem Threads.ext {t u : Threads} (hn : t.nextId = u.nextId) (hm : t.messages = u.messages)
    (hc : t.conversations = u.conversations) (ha : t.aliases = u.aliases) : t = u := by
  cases t
  cases u
  simp only at hn hm hc ha
  subst hn hm hc ha
  rfl

def Database.threads (db : Database Digest) : Threads where
  nextId := db.nextId
  messages id := (db.messages.get? id).map EmailMessage.threadView
  conversations id := (db.conversations.get? id).map EmailConversation.view
  aliases := {a | ∃ row ∈ db.routingAliases, (row.conversationId, row.candidate) = a}

/-- The parent map of the messages. -/
def Threads.parents (t : Threads) : Uuid → Option Uuid := fun id =>
  (t.messages id).bind ThreadView.parentMessageId

/-! ### Merging -/

/-- A message of a source of a merge moves to the target. -/
def ThreadView.move (target : Uuid) (sources : List Uuid) (v : ThreadView) : ThreadView :=
  if v.conversationId.any sources.contains then { v with conversationId := some target } else v

/-- The survivor of a merge, as `preserveMergedConversationState` computes it. -/
def ConversationView.merge (target : ConversationView) (sources : List ConversationView) :
    ConversationView :=
  let promotedSource := sources.find? fun s =>
    s.apiVersion == some .v2 && s.replyToBaseAddress.isSome
  let selectedSource := promotedSource.or (sources.find? fun s => s.replyToBaseAddress.isSome)
  let apiVersion :=
    if target.apiVersion = some .v2 ∨ promotedSource.isSome then some .v2
    else target.apiVersion.or (sources.findSome? ConversationView.apiVersion)
  { target with
    apiVersion
    replyToBaseAddress :=
      target.replyToBaseAddress.or (selectedSource.bind ConversationView.replyToBaseAddress)
    replyToRequiresAllowlist :=
      if apiVersion = some .v2 then
        (target.apiVersion == some .v2 && target.replyToRequiresAllowlist) ||
          promotedSource.any ConversationView.replyToRequiresAllowlist
      else target.replyToRequiresAllowlist
    state := (mergePrecedence.find? fun candidate =>
      (target :: sources).any fun row => row.state == candidate).getD target.state }

/-! ### Events -/

inductive ThreadEvent where
  /-- Identifiers are drawn, up to the given one. -/
  | drawn (nextId : Uuid)
  | begun (conversationId : Uuid) (row : ConversationView)
  | stored (messageId : Uuid) (row : ThreadView)
  /-- A message learns its Message-ID. -/
  | identified (messageId : Uuid) (internetMessageId : JsString)
  | adopted (parentMessageId : Uuid) (children : List Uuid)
  | merged (target : Uuid) (sources : List Uuid)
  /-- A reply fixes the Reply-To base. -/
  | promoted (conversationId : Uuid) (base : JsString)
  /-- A conversation without a live message is opened again. -/
  | reopened (conversationId : Uuid) (participantAddress base : JsString)
  | assigned (conversationId : Uuid) (topic : JsString × JsString)
  /-- An automatic transition of the state. -/
  | turned (conversationId : Uuid) (state : ConversationState)
  /-- A transition by the operator. -/
  | overridden (conversationId : Uuid) (state : ConversationState)
  | deleted (conversationId : Uuid)

namespace Threads

/-- The conversation is rewritten. -/
def onConversation (t : Threads) (c : Uuid) (f : ConversationView → ConversationView) : Threads :=
  { t with conversations := fun k => if k = c then (t.conversations k).map f
    else t.conversations k }

/-- The message is rewritten. -/
def onMessage (t : Threads) (id : Uuid) (f : ThreadView → ThreadView) : Threads :=
  { t with messages := fun k => if k = id then (t.messages k).map f else t.messages k }

/-- The rows of the sources of a merge. -/
def rows (t : Threads) (sources : List Uuid) : List ConversationView :=
  sources.filterMap t.conversations

/-- The aliases after a merge: those of the sources belong to the target, and every source
whose base is fixed leaves an alias unless its tag already is one. -/
def mergedAliases (t : Threads) (target : Uuid) (sources : List Uuid) :
    Set (Uuid × RoutingCandidate) :=
  {a | (a ∈ t.aliases ∧ a.1 ∉ sources) ∨ (a.1 = target ∧ ∃ s ∈ sources, (s, a.2) ∈ t.aliases) ∨
    (a.1 = target ∧ (∀ c, (c, a.2) ∉ t.aliases) ∧
      ∃ s ∈ sources, ∃ row, t.conversations s = some row ∧ row.candidate = some a.2)}

/-- Whether the message belongs to the conversation. -/
def inConversation (t : Threads) (c id : Uuid) : Bool :=
  (t.messages id).any fun v => v.conversationId == some c

def apply (t : Threads) : ThreadEvent → Threads
  | .drawn nextId => { t with nextId }
  | .begun c row =>
      { t with nextId := c + 2, conversations := Function.update t.conversations c (some row) }
  | .stored id row =>
      { t with nextId := id + 1, messages := Function.update t.messages id (some row) }
  | .identified id internetMessageId =>
      t.onMessage id fun v => { v with internetMessageId := some internetMessageId }
  | .adopted parent children =>
      { t with messages := fun k => (t.messages k).map fun v =>
          if k ∈ children then { v with parentMessageId := some parent } else v }
  | .merged target sources =>
      { t with
        messages := fun k => (t.messages k).map (ThreadView.move target sources)
        conversations := fun k =>
          if k ∈ sources then none
          else if k = target then (t.conversations k).map fun row => row.merge (t.rows sources)
          else t.conversations k
        aliases := t.mergedAliases target sources }
  | .promoted c base => t.onConversation c fun row =>
      { row with
        apiVersion := some .v2
        replyToBaseAddress := some base
        replyToRequiresAllowlist := true }
  | .reopened c participantAddress base => t.onConversation c fun row =>
      { row with
        apiVersion := some .v2
        participantAddress
        replyToBaseAddress := some base
        replyToRequiresAllowlist := true
        state := .awaitingParticipant }
  | .assigned c topic => t.onConversation c fun row =>
      { row with
        apiVersion := some .v2
        topicType := some topic.1
        externalTopicId := some topic.2 }
  | .turned c state | .overridden c state => t.onConversation c fun row => { row with state }
  | .deleted c =>
      { t with
        messages := fun k =>
          if t.inConversation c k then none
          else (t.messages k).map fun v =>
            { v with parentMessageId := v.parentMessageId.filter fun p => !t.inConversation c p }
        conversations := fun k => if k = c then none else t.conversations k
        aliases := {a | a ∈ t.aliases ∧ a.1 ≠ c} }

/-- Whether the request's Reply-To base may become that of the conversation. -/
structure Fits (lower : JsString → JsString) (row : ConversationView) (base : JsString) : Prop where
  valid : (parseBaseMailbox lower base).isSome
  agrees : ∀ b, row.replyToBaseAddress.bind orNull = some b → b = base

/-- A new conversation: started by a received email, or opened for a topic. -/
inductive Founding (lower : JsString → JsString) (row : ConversationView) : Prop
  | inbound (version : row.apiVersion = none) (topicType : row.topicType = none)
      (externalTopicId : row.externalTopicId = none) (base : row.replyToBaseAddress = none)
      (allowlist : row.replyToRequiresAllowlist = false) (state : row.state = .awaitingUs)
  | opening (version : row.apiVersion = some .v2) (topicType : row.topicType.isSome)
      (externalTopicId : row.externalTopicId.isSome)
      (base : ∃ base, row.replyToBaseAddress = some base ∧ (parseBaseMailbox lower base).isSome)
      (state : row.state = .awaitingParticipant)

/-- What is asked of a message that is stored in a conversation. -/
structure Joins (lower : JsString → JsString) (t : Threads) (v : ThreadView) (c : Uuid)
    (row : ConversationView) : Prop where
  kind : v.kind = .conversation
  found : t.conversations c = some row
  parent : ∀ p, v.parentMessageId = some p →
    ∃ w, t.messages p = some w ∧ w.conversationId = some c
  inbound : v.direction = .inbound →
    lower row.participantAddress = lower v.fromAddress ∧ v.internetMessageId.isSome
  outbound : v.direction = .outbound → v.internetMessageId = none ∧
    ∃ base r, row.replyToBaseAddress = some base ∧ v.replyToAddress = some r ∧
      buildConversationReplyTo lower base row.routingToken = some r

/-- What is asked of a message that belongs to no conversation. -/
structure Loose (v : ThreadView) : Prop where
  kind : v.kind = .direct
  direction : v.direction = .outbound
  parent : v.parentMessageId = none
  internetMessageId : v.internetMessageId = none
  inReplyTo : v.inReplyToInternetMessageId = none

/-- No other message has the Message-ID. -/
def Unused (t : Threads) (id : Uuid) (internetMessageId : Option JsString) : Prop :=
  ∀ mid k v, internetMessageId = some mid → k ≠ id → t.messages k = some v →
    v.internetMessageId ≠ some mid

/-- The reply waits for a parent with the Message-ID in the conversation. -/
structure Waits (c : Uuid) (mid : JsString) (v : ThreadView) : Prop where
  parent : v.parentMessageId = none
  conversationId : v.conversationId = some c
  inReplyTo : v.inReplyToInternetMessageId = some mid

/-- When an event can happen. -/
def Enabled (lower : JsString → JsString) (t : Threads) : ThreadEvent → Prop
  | .drawn nextId => t.nextId ≤ nextId
  | .begun c row => c = t.nextId ∧ t.conversations c = none ∧ row.routingToken = uuidText (c + 1) ∧
      Founding lower row
  | .stored id v => id = t.nextId ∧ t.messages id = none ∧ t.Unused id v.internetMessageId ∧
      match v.conversationId with
      | some c => ∃ row, t.Joins lower v c row
      | none => Loose v
  | .identified id mid => (∃ v, t.messages id = some v ∧ v.conversationId.isSome) ∧
      t.Unused id (some mid)
  | .adopted p children => ∃ w c mid, t.messages p = some w ∧ w.conversationId = some c ∧
      w.internetMessageId = some mid ∧ ∀ k ∈ children, ∃ v, t.messages k = some v ∧ Waits c mid v
  | .merged target sources => sources ≠ [] ∧ target ∉ sources ∧
      ∃ row, t.conversations target = some row ∧ ∀ s ∈ sources, ∃ source,
        t.conversations s = some source ∧ source.topicType = none ∧
        lower source.participantAddress = lower row.participantAddress
  | .promoted c base => ∃ row, t.conversations c = some row ∧ Fits lower row base
  | .reopened c _ base => (∃ row, t.conversations c = some row ∧ Fits lower row base) ∧
      ∀ k v, t.messages k = some v → v.conversationId = some c → v.direction = .outbound
  | .assigned c _ => ∃ row, t.conversations c = some row ∧ row.topicType = none ∧
      row.externalTopicId = none ∧ row.apiVersion ≠ some .v1
  | .turned c _ => ∃ row, t.conversations c = some row ∧ row.state ≠ .terminated
  | .overridden c _ | .deleted c => (t.conversations c).isSome

end Threads

/-- The events of threads; `lower` is the letter-case mapping of the language. -/
def threading (lower : JsString → JsString) : EventSystem Threads ThreadEvent where
  Enabled := Threads.Enabled lower
  apply := Threads.apply

/-- One enabled event. -/
theorem Threads.explains {lower : JsString → JsString} {P : ThreadEvent → Prop} {t : Threads}
    {e : ThreadEvent} (he : P e) (h : t.Enabled lower e) :
    (threading lower).Explains P t (t.apply e) :=
  EventSystem.Explains.single (E := threading lower) he h

/-! ### Databases -/

/-- The databases around a transaction that is explained by events of the kind `P`. -/
def Woven (lower : JsString → JsString) (P : ThreadEvent → Prop) (db db' : Database Digest) :
    Prop :=
  (threading lower).Explains P db.threads db'.threads

section
variable {lower : JsString → JsString} {P Q : ThreadEvent → Prop}

instance : Std.Refl (@Woven Digest lower P) where
  refl _ := .refl _

instance : IsTrans (Database Digest) (Woven lower P) where
  trans _ _ _ h h' := EventSystem.Explains.trans h h'

theorem Woven.trans {a b c : Database Digest} (h : Woven lower P a b) (h' : Woven lower P b c) :
    Woven lower P a c := EventSystem.Explains.trans h h'

theorem Woven.mono {db db' : Database Digest} (h : Woven lower P db db') (hPQ : ∀ e, P e → Q e) :
    Woven lower Q db db' := EventSystem.Explains.mono h hPQ

/-- One event explains the transaction. -/
theorem Woven.single {db db' : Database Digest} {e : ThreadEvent} (he : P e)
    (h : db.threads.Enabled lower e) (heq : db'.threads = db.threads.apply e) :
    Woven lower P db db' := by
  change (threading lower).Explains P db.threads db'.threads
  rw [heq]
  exact db.threads.explains he h

/-- Nothing that threading reads is changed. -/
theorem Woven.of_eq {db db' : Database Digest} (h : db'.threads = db.threads) :
    Woven lower P db db' := by
  change (threading lower).Explains P db.threads db'.threads
  rw [h]
  exact .refl _

end

end ResendConversation
