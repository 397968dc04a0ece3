import ResendConversation.SendSteps
import ResendConversation.StatementRows
import ResendConversation.UniqueLists

/-! # Threading metadata

What a stored message says about the thread it belongs to.  `projectInboundEmail` reads it off the
sender's headers: the references are filtered by length and cut, while `In-Reply-To` is taken as it
is.  A reply gets the references of its parent and the parent's own Message-ID: with set semantics
that id stays where it first occurs, and it is not the last when a new id follows it there. -/

namespace ResendConversation

open Foundation JsString

variable {Digest : Type}

/-! ### Received emails -/

/-- The bound on the references and on the ids of a message, and the place of its parent's id. -/
structure ThreadingBounded (m : EmailMessage Digest) : Prop where
  count : m.referenceInternetMessageIds.length ≤ 101
  references : ∀ id ∈ m.referenceInternetMessageIds, id.length ≤ 998
  inReplyTo : ∀ id, m.inReplyToInternetMessageId = some id → id.length ≤ 998
  absent : m.inReplyToInternetMessageId = none ↔ m.referenceInternetMessageIds = []
  last : ∀ id, m.inReplyToInternetMessageId = some id →
    m.referenceInternetMessageIds.getLast? = some id

/-- The Message-ID that `In-Reply-To` names. -/
def inReplyToHeader (rt : Runtime Digest) (email : ResendEmail) : Option JsString :=
  (extractMessageIds (getHeader rt.toLowerCase email.headers (js "in-reply-to"))).getLast?

/-- The references that a projection keeps: the last hundred of a bounded length. -/
def rawReferences (rt : Runtime Digest) (email : ResendEmail) : List JsString :=
  let kept := (extractMessageIds (getHeader rt.toLowerCase email.headers (js "references"))).filter
    fun id => id.length ≤ 998
  kept.drop (kept.length - 100)

theorem length_rawReferences (rt : Runtime Digest) (email : ResendEmail) :
    (rawReferences rt email).length ≤ 100 := by
  simp only [rawReferences, List.length_drop]
  omega

theorem length_of_mem_rawReferences {rt : Runtime Digest} {email : ResendEmail} {id : JsString}
    (h : id ∈ rawReferences rt email) : id.length ≤ 998 := by
  have hkept := List.mem_filter.mp (List.mem_of_mem_drop h)
  exact of_decide_eq_true hkept.2

/-- The row of a message with the metadata of a received email is bounded when `In-Reply-To` is. -/
theorem threadingBounded_iff {rt : Runtime Digest} {event : EmailEventData} {email : ResendEmail}
    {m : EmailMessage Digest}
    (hparent : m.inReplyToInternetMessageId =
      (parseInboundEmail rt event email).effectiveParentInternetMessageId)
    (hreferences : m.referenceInternetMessageIds = (parseInboundEmail rt event email).references) :
    ThreadingBounded m ↔ ∀ id, inReplyToHeader rt email = some id → id.length ≤ 998 := by
  have hparent : m.inReplyToInternetMessageId =
      (inReplyToHeader rt email).or (rawReferences rt email).getLast? :=
    hparent
  have hlength := length_rawReferences rt email
  cases hheader : inReplyToHeader rt email with
  | none =>
      have hreferences : m.referenceInternetMessageIds = rawReferences rt email := by
        rw [hreferences]
        unfold parseInboundEmail
        dsimp only
        rw [← inReplyToHeader, hheader]
        rfl
      rw [hheader, Option.none_or] at hparent
      constructor
      · intro _ id hid
        cases hid
      · intro _
        refine ⟨by rw [hreferences]; omega, ?_, ?_, ?_, ?_⟩
        · intro id hid
          exact length_of_mem_rawReferences (hreferences ▸ hid)
        · intro id hid
          exact length_of_mem_rawReferences (List.mem_of_getLast? (hparent.symm.trans hid))
        · rw [hparent, hreferences, List.getLast?_eq_none_iff]
        · intro id hid
          rw [hreferences, ← hparent, hid]
  | some parent =>
      have hreferences : m.referenceInternetMessageIds =
          (rawReferences rt email).filter (· != parent) ++ [parent] := by
        rw [hreferences]
        unfold parseInboundEmail
        dsimp only
        rw [← inReplyToHeader, hheader]
        rfl
      rw [hheader, Option.some_or] at hparent
      constructor
      · intro hbounded id hid
        exact hbounded.inReplyTo id (hparent.trans hid)
      · intro hbounded
        refine ⟨?_, ?_, ?_, ?_, ?_⟩
        · have hfilter := List.length_filter_le (· != parent) (rawReferences rt email)
          rw [hreferences, List.length_append, List.length_singleton]
          omega
        · intro id hid
          rw [hreferences] at hid
          cases List.mem_append.mp hid with
          | inl hid => exact length_of_mem_rawReferences (List.mem_of_mem_filter hid)
          | inr hid => exact hbounded id (by rw [List.mem_singleton.mp hid])
        · intro id hid
          exact hbounded id (hparent.symm.trans hid)
        · rw [hparent, hreferences]
          simp
        · intro id hid
          rw [hreferences, List.getLast?_concat, ← hparent, hid]

/-- The rows that a projection adds have the metadata of the email. -/
theorem projectInboundEmail_metadata {rt : Runtime Digest} {config : Config}
    {scan : Scan (EmailMessage Digest)} {now : Time} {event : EmailEventData} {email : ResendEmail}
    {base : JsString} {db db' : Database Digest} {m : EmailMessage Digest}
    (h : projectInboundEmail rt config scan now event email base db = .ok (m, db')) :
    ∀ r ∈ db'.messages, db.messages.get? r.id = none →
      r.inReplyToInternetMessageId =
        (parseInboundEmail rt event email).effectiveParentInternetMessageId ∧
        r.referenceInternetMessageIds = (parseInboundEmail rt event email).references := by
  refine (performs_projectInboundEmail rt config scan now event email base h).invariant
    (I := fun db₁ => ∀ r ∈ db₁.messages, db.messages.get? r.id = none →
      r.inReplyToInternetMessageId =
        (parseInboundEmail rt event email).effectiveParentInternetMessageId ∧
        r.referenceInternetMessageIds = (parseInboundEmail rt event email).references) ?_ ?_
  · intro r hr hnew
    rw [Table.mem_iff_get?.mp hr] at hnew
    cases hnew
  · intro db₁ db₂ hold hs r hr hnew
    cases hs.message_origin hr with
    | inl hrewritten =>
        obtain ⟨r₁, hr₁, hrewritten⟩ := hrewritten
        have hold := hold r₁ hr₁ (hrewritten.id_eq ▸ hnew)
        cases hrewritten <;> exact hold
    | inr hinserted =>
        obtain ⟨conversationId, parent, heq⟩ := hinserted.granted
        rw [heq]
        exact ⟨rfl, rfl⟩

/-- What a projection stores is bounded exactly when the id of `In-Reply-To` is. -/
theorem projected_metadata_iff (rt : Runtime Digest) (config : Config)
    (scan : Scan (EmailMessage Digest)) (now : Time) (event : EmailEventData) (email : ResendEmail)
    (base : JsString) (db db' : Database Digest) (m r : EmailMessage Digest)
    (h : projectInboundEmail rt config scan now event email base db = .ok (m, db'))
    (hstored : r ∈ db'.messages) (hnew : db.messages.get? r.id = none) :
    ThreadingBounded r ↔ ∀ id, inReplyToHeader rt email = some id → id.length ≤ 998 := by
  obtain ⟨hparent, hreferences⟩ := projectInboundEmail_metadata h r hstored hnew
  exact threadingBounded_iff hparent hreferences

namespace Reference

/-- An email with the given In-Reply-To header. -/
def answer (inReplyTo : JsString) : ResendEmail where
  messageId := js "<b>"
  «from» := js "p@q.co"
  «to» := [js "r@s.co"]
  subject := js "s"
  createdAt := some 0
  headers := some [(js "References", js "<r> <a>"), (js "In-Reply-To", inReplyTo)]

/-- The projection of an email with the given In-Reply-To header, in an empty database. -/
def projected (inReplyTo : JsString) :
    Except TxError (EmailMessage SendRequest × Database SendRequest) :=
  projectInboundEmail .reference .reference (.sequential _) 0
    ⟨js "1", js "p@q.co", [js "r@s.co"], 0, none, none⟩ (answer inReplyTo) (js "help@s.co") .initial

theorem of_any_toOption {ε α : Type} {x : Except ε α} {p : α → Bool} (h : x.toOption.any p = true) :
    ∃ a, x = .ok a ∧ p a = true := by
  cases x with
  | error e => cases h
  | ok a => exact ⟨a, rfl, h⟩

/-- A Message-ID that takes more than a line of a header. -/
def longMessageId : JsString := 60 :: List.replicate 997 97 ++ [62]

end Reference

/-- The id of an oversized In-Reply-To header is stored. -/
theorem projected_metadata_unbounded :
    ¬∀ (rt : Runtime SendRequest) (config : Config) (scan : Scan (EmailMessage SendRequest))
      (now : Time) (event : EmailEventData) (email : ResendEmail) (base : JsString)
      (db db' : Database SendRequest) (m r : EmailMessage SendRequest),
      projectInboundEmail rt config scan now event email base db = .ok (m, db') →
        r ∈ db'.messages → db.messages.get? r.id = none → ThreadingBounded r := by
  intro hbounded
  have hstored : (Reference.projected Reference.longMessageId).toOption.any (fun p =>
      decide (p.1 ∈ p.2.messages.rows ∧
        p.1.inReplyToInternetMessageId = some Reference.longMessageId)) = true := by
    decide +kernel
  obtain ⟨⟨m, db'⟩, h, hp⟩ := Reference.of_any_toOption hstored
  obtain ⟨hm, hinReplyTo⟩ := of_decide_eq_true hp
  have hlong := (hbounded _ _ _ _ _ _ _ _ _ _ m h hm rfl).inReplyTo _ hinReplyTo
  revert hlong
  decide +kernel

theorem projected_metadata_reference : ∃ m db', Reference.projected (js "<a>") = .ok (m, db') ∧
    ThreadingBounded m ∧ m.referenceInternetMessageIds = [js "<r>", js "<a>"] := by
  have hstored : (Reference.projected (js "<a>")).toOption.any
      (fun p => decide (p.1 ∈ p.2.messages.rows ∧
      p.1.referenceInternetMessageIds = [js "<r>", js "<a>"])) = true := by
    decide +kernel
  obtain ⟨⟨m, db'⟩, h, hp⟩ := Reference.of_any_toOption hstored
  obtain ⟨hm, hreferences⟩ := of_decide_eq_true hp
  refine ⟨m, db', h, (projected_metadata_iff _ _ _ _ _ _ _ _ _ m m h hm rfl).mpr fun id hid => ?_,
    hreferences⟩
  have hheader : inReplyToHeader .reference (Reference.answer (js "<a>")) = some (js "<a>") := by
    decide +kernel
  rw [hheader] at hid
  cases hid
  decide

/-! ### Replies -/

/-- What the metadata of a reply to a message with these references and this Message-ID is. -/
structure ReplyReferences (references : List JsString) (internetMessageId : JsString)
    (m : EmailMessage Digest) (headers : Option ThreadingHeaders) : Prop where
  headers : headers = some ⟨internetMessageId, join (js " ") m.referenceInternetMessageIds⟩
  nodup : m.referenceInternetMessageIds.Nodup
  kept : ∀ id ∈ references, id ∈ m.referenceInternetMessageIds
  order : m.referenceInternetMessageIds.Sublist (references ++ [internetMessageId])
  last : m.referenceInternetMessageIds.getLast? = some internetMessageId

theorem SendHandler.withParent_goto {h : SendHandler Digest} {parent : EmailMessage Digest}
    {internetMessageId : JsString} {p : ReplyParent}
    (hp : h.withParent parent internetMessageId = h.goto (.transact (some p))) :
    internetMessageId ≠ [] ∧
      p = ⟨parent.id, internetMessageId, buildReferences parent.referenceInternetMessageIds
        internetMessageId⟩ := by
  unfold withParent at hp
  split at hp
  · cases hp
  next hne =>
    cases hp
    exact ⟨by simpa using hne, rfl⟩

/-- The references of a reply end with the Message-ID of its parent exactly when the parent's own
list names nothing new after that id. -/
theorem reply_references_iff (h : SendHandler Digest) (parent : EmailMessage Digest)
    (internetMessageId : JsString) (p : ReplyParent)
    (hp : h.withParent parent internetMessageId = h.goto (.transact (some p)))
    (ctx : SendContext Digest) (value : MessageV2Input) (conversation : EmailConversation)
    (replyToAddress : JsString) (id : Uuid) (attachments : List SendEmailAttachmentInput) :
    ReplyReferences parent.referenceInternetMessageIds internetMessageId
        (replyCreateData ctx value conversation p replyToAddress id)
        (buildSendEmailInput (replyCreateData ctx value conversation p replyToAddress id)
          attachments).headers ↔
      ∀ before after, parent.referenceInternetMessageIds = before ++ internetMessageId :: after →
        internetMessageId ∉ before → ∀ id ∈ after, id = internetMessageId ∨ id ∈ before := by
  obtain ⟨hne, rfl⟩ := SendHandler.withParent_goto hp
  set references := parent.referenceInternetMessageIds with hreferences
  have hlast : (buildReferences references internetMessageId).getLast? = some internetMessageId ↔
      ∀ before after, references = before ++ internetMessageId :: after →
        internetMessageId ∉ before → ∀ id ∈ after, id = internetMessageId ∨ id ∈ before := by
    unfold buildReferences
    rw [unique_concat]
    split
    next hmem =>
      constructor
      · intro hlast before after hsplit hbefore
        rw [hsplit] at hlast
        exact (getLast?_unique hbefore after).mp hlast
      · intro hall
        obtain ⟨before, after, hsplit, hbefore⟩ := List.eq_append_cons_of_mem hmem
        rw [hsplit]
        exact (getLast?_unique hbefore after).mpr (hall before after hsplit hbefore)
    next hmem =>
      rw [List.getLast?_concat]
      refine ⟨fun _ before after hsplit => absurd ?_ hmem, fun _ => rfl⟩
      simp [hsplit]
  rw [← hlast]
  constructor
  · exact fun hreply => hreply.last
  · intro hreply
    refine ⟨?_, nodup_unique _, fun id hid => mem_unique.mpr (List.mem_append_left _ hid),
      unique_sublist _, hreply⟩
    have hsome : orNull internetMessageId = some internetMessageId := by
      unfold orNull
      rw [if_neg (by simpa using hne)]
    unfold buildSendEmailInput
    dsimp only [replyCreateData]
    rw [Option.bind_some, hsome]
    rfl

namespace Reference

/-- The body of a reply. -/
def replyValue : MessageV2Input := { «from» := ⟨js "a@s.co", none⟩, replyTo := ⟨js "r@s.co", none⟩ }

/-- A conversation with a participant. -/
def answered : EmailConversation where
  id := 0
  routingToken := js "t"
  apiVersion := none
  topicType := none
  externalTopicId := none
  title := js "s"
  subject := js "s"
  participantAddress := js "p@q.co"
  participantName := none
  replyToBaseAddress := none
  replyToRequiresAllowlist := false
  state := .awaitingUs
  stateChangedAt := 0
  lastMessageAt := 0
  createdAt := 0
  eventSequence := 0

/-- A received message with the given references. -/
def parent (references : List JsString) : EmailMessage SendRequest where
  id := 1
  conversationId := some 0
  direction := .inbound
  state := .received
  internetMessageId := some (js "<p>")
  referenceInternetMessageIds := references
  fromAddress := js "p@q.co"
  toAddress := js "r@s.co"
  subject := js "s"
  emailCreatedAt := 0
  createdAt := 0

def replying : SendHandler SendRequest := ⟨.reply false 0 replyValue, js "k", .lookup⟩

def replyContext : SendContext SendRequest :=
  ⟨.reference, .reference, 0, 0, js "k", replying.request⟩

end Reference

/-- A parent that names a new id after its own: its id is not the last of the reply. -/
theorem reply_references_misplaced :
    ¬∀ (h : SendHandler SendRequest) (parent : EmailMessage SendRequest)
      (internetMessageId : JsString) (p : ReplyParent),
      h.withParent parent internetMessageId = h.goto (.transact (some p)) →
      ∀ (ctx : SendContext SendRequest) (value : MessageV2Input) (conversation : EmailConversation)
        (replyToAddress : JsString) (id : Uuid) (attachments : List SendEmailAttachmentInput),
        ReplyReferences parent.referenceInternetMessageIds internetMessageId
          (replyCreateData ctx value conversation p replyToAddress id)
          (buildSendEmailInput (replyCreateData ctx value conversation p replyToAddress id)
            attachments).headers := by
  intro hreply
  have hlast := (hreply Reference.replying (Reference.parent [js "<p>", js "<q>"]) (js "<p>")
    ⟨1, js "<p>", [js "<p>", js "<q>"]⟩ rfl Reference.replyContext Reference.replyValue
    Reference.answered (js "r@s.co") 2 []).last
  revert hlast
  decide

theorem reply_references_reference :
    ReplyReferences [js "<r>", js "<p>", js "<r>"] (js "<p>")
      (replyCreateData Reference.replyContext Reference.replyValue Reference.answered
        ⟨1, js "<p>", [js "<r>", js "<p>"]⟩ (js "r@s.co") 2)
      (buildSendEmailInput
        (replyCreateData Reference.replyContext Reference.replyValue Reference.answered
        ⟨1, js "<p>", [js "<r>", js "<p>"]⟩ (js "r@s.co") 2) []).headers := by
  refine (reply_references_iff Reference.replying (Reference.parent [js "<r>", js "<p>", js "<r>"])
    (js "<p>") ⟨1, js "<p>", [js "<r>", js "<p>"]⟩ rfl Reference.replyContext Reference.replyValue
    Reference.answered (js "r@s.co") 2 []).mpr ?_
  intro before after hsplit hbefore
  have hsplit : [js "<r>", js "<p>", js "<r>"] = before ++ js "<p>" :: after := hsplit
  cases before with
  | nil => exact absurd (List.cons.inj hsplit).1 (by decide)
  | cons first rest =>
      obtain ⟨hfirst, htail⟩ := List.cons.inj hsplit
      subst hfirst
      cases rest with
      | nil =>
          obtain ⟨-, rfl⟩ := List.cons.inj htail
          decide
      | cons second rest =>
          exact absurd (by simp [(List.cons.inj htail).1]) hbefore

end ResendConversation
