import ResendConversation.DisplayNames
import ResendConversation.Inbound
import ResendConversation.ReplySubjects

/-! # Texts that the database keeps

A text column refuses U+0000, and the driver writes U+FFFD for a lone surrogate.  What a
projection stores of an email consists of characters of the texts of the event and of the email,
so it is stored when none of these is refused. -/

namespace ResendConversation

open JsString

variable {Digest : Type} {event : EmailEventData} {email : ResendEmail}

/-- A text that a column takes and gives back as it is. -/
structure JsString.Kept (s : JsString) : Prop where
  storable : s.storable = true
  /-- No lone surrogate. -/
  paired : ∀ n ∈ codePoints s, ¬(0xD800 ≤ n ∧ n ≤ 0xDFFF)

def EmailEventData.texts (event : EmailEventData) : List JsString :=
  [event.emailId, event.from] ++ event.to ++ event.messageId.toList

def ResendReceivedAttachment.texts (a : ResendReceivedAttachment) : List JsString :=
  [a.id] ++ a.filename.toList ++ a.contentType.toList ++ a.contentId.toList

def ResendEmail.texts (email : ResendEmail) : List JsString :=
  [email.messageId, email.from, email.subject] ++ email.to ++ email.text.toList ++
    email.html.toList ++ (email.headers.getD []).map Prod.snd ++ email.replyTo.getD [] ++
    (email.attachments.getD []).flatMap ResendReceivedAttachment.texts

/-- No text of the event or of the email is refused. -/
def StorableEmail (event : EmailEventData) (email : ResendEmail) : Prop :=
  ∀ t ∈ event.texts ++ email.texts, t.storable = true

instance : DecidablePred JsString.Kept := fun s =>
  decidable_of_iff (s.storable = true ∧ ∀ n ∈ codePoints s, ¬(0xD800 ≤ n ∧ n ≤ 0xDFFF))
    ⟨fun h => ⟨h.1, h.2⟩, fun h => ⟨h.storable, h.paired⟩⟩

/-- An email that the database can store, and keeps as it is. -/
structure KeptEmail (rt : Runtime Digest) (event : EmailEventData) (email : ResendEmail) :
    Prop where
  texts : ∀ t ∈ event.texts ++ email.texts, t.Kept
  /-- Two of its identifiers fit into an entry of an index. -/
  identifiers : ∀ id ∈ [event.emailId, (parseInboundEmail rt event email).internetMessageId] ++
    (parseInboundEmail rt event email).effectiveParentInternetMessageId.toList ++
    (email.attachments.getD []).map ResendReceivedAttachment.id, id.length ≤ 400
  sizes : ∀ a ∈ email.attachments.getD [], a.size ≤ 9223372036854775807

theorem KeptEmail.storable {rt : Runtime Digest} (h : KeptEmail rt event email) :
    StorableEmail event email :=
  fun t ht => (h.texts t ht).storable

namespace JsString

variable {s t : JsString}

theorem storable_iff : s.storable = true ↔ 0 ∉ s := by simp [storable]

theorem storable_of_subset (h : ∀ c ∈ s, c ∈ t) (ht : t.storable = true) : s.storable = true :=
  storable_iff.mpr fun hmem => storable_iff.mp ht (h 0 hmem)

theorem storable_trim (h : s.storable = true) : (trim s).storable = true :=
  storable_of_subset (trim_subset s) h

theorem storable_trimEnd (h : s.storable = true) : (trimEnd s).storable = true :=
  storable_of_subset (fun _ => mem_trimEnd) h

theorem mem_of_mem_tail_if {p : Prop} [Decidable p] {c : UInt16}
    (h : c ∈ (if p then s.tail else s)) :
    c ∈ s := by
  split at h
  · exact List.mem_of_mem_tail h
  · exact h

theorem mem_of_mem_dropLast_if {p : Prop} [Decidable p] {c : UInt16}
    (h : c ∈ (if p then s.dropLast else s)) :
    c ∈ s := by
  split at h
  · exact List.mem_of_mem_dropLast h
  · exact h

theorem storable_stripQuotes (h : s.storable = true) : (stripQuotes s).storable = true :=
  storable_of_subset (fun _ hc => mem_of_mem_tail_if (mem_of_mem_dropLast_if hc)) h

theorem storable_normalizeSubject (h : s.storable = true) :
    (normalizeSubject s).storable = true := by
  have hhead : ∀ c ∈ (trim s).head?, isSpace c = false := (trimmed_trim s).head
  unfold normalizeSubject
  dsimp only
  split
  · exact storable_trim h
  · refine storable_of_subset (fun c hc => ?_) (storable_trim h)
    exact (stripSubjectPrefixes_suffix _ hhead).1.subset hc

theorem storable_append : (s ++ t).storable = true ↔ s.storable = true ∧ t.storable = true := by
  simp [storable_iff]

theorem storable_take (n : ℕ) (h : s.storable = true) : storable (s.take n) = true :=
  storable_of_subset (fun _ => List.mem_of_mem_take) h

theorem storable_reverse : storable s.reverse = true ↔ s.storable = true := by simp [storable_iff]

/-- The scan keeps the characters of an identifier that it has begun. -/
theorem storable_extractMessageIdsFrom {pending : Option JsString}
    (hpending : ∀ id ∈ pending, id.storable = true) (h : s.storable = true) :
    ∀ id ∈ extractMessageIdsFrom pending s, id.storable = true := by
  induction s generalizing pending with
  | nil => simp [extractMessageIdsFrom]
  | cons c s ih =>
      have hs : storable s = true := storable_of_subset (fun _ => List.mem_cons_of_mem c) h
      have hnone : ∀ id ∈ extractMessageIdsFrom none s, id.storable = true := ih nofun hs
      rw [extractMessageIdsFrom.eq_def]
      dsimp only
      split
      · exact ih (by rintro _ ⟨⟩; rfl) hs
      · split
        · exact hnone
        next begun =>
          have hbegun := hpending begun rfl
          split
          · split
            · exact hnone
            · -- the identifier is complete
              rintro id hid
              rcases List.mem_cons.mp hid with rfl | hid
              · have hinner : storable begun.reverse = true := storable_reverse.mpr hbegun
                exact storable_append.mpr ⟨storable_append (s := [60]).mpr ⟨rfl, hinner⟩, rfl⟩
              · exact hnone id hid
          · split
            · exact hnone
            · refine ih ?_ hs
              rintro _ ⟨⟩
              exact storable_append (s := [c]).mpr
                ⟨storable_of_subset
                  (fun _ hd => List.mem_cons.mpr (.inl (List.mem_singleton.mp hd))) h, hbegun⟩

theorem storable_extractMessageIds {value : Option JsString} (h : ∀ v ∈ value, v.storable = true) :
    ∀ id ∈ extractMessageIds value, id.storable = true := by
  refine storable_extractMessageIdsFrom nofun ?_
  cases value with
  | none => rfl
  | some v => exact h v rfl

end JsString

/-- The address and the name of a mailbox are parts of the text that it is read from. -/
theorem storable_parseAddress {value : JsString} (h : value.storable = true) :
    (parseAddress value).address.storable = true ∧ ∀ name ∈ (parseAddress value).name,
      name.storable = true := by
  have htrim := storable_trim h
  have hplain : (Mailbox.mk (trim value) none).address.storable = true ∧
      ∀ name ∈ (Mailbox.mk (trim value) none).name, name.storable = true := ⟨htrim, nofun⟩
  unfold parseAddress
  dsimp only
  split
  · split
    · exact hplain
    next i _ =>
      have hinner : storable (trim value).dropLast = true :=
        storable_of_subset (fun _ => List.mem_of_mem_dropLast) htrim
      split
      · exact hplain
      · refine ⟨storable_trim (storable_of_subset (fun _ => List.mem_of_mem_drop) hinner),
          fun name hname => ?_⟩
        have htake : (trimEnd ((trim value).dropLast.take i)).storable = true :=
          storable_trimEnd (storable_of_subset (fun _ => List.mem_of_mem_take) hinner)
        have hstripped := storable_stripQuotes (storable_trim htake)
        unfold orNull at hname
        split at hname
        · cases hname
        · obtain rfl := Option.some.inj hname
          exact hstripped
  · exact hplain

theorem mem_headers_of_getHeader {toLowerCase : JsString → JsString}
    {headers : Option (List (JsString × JsString))} {name value : JsString}
    (h : getHeader toLowerCase headers name = some value) :
    value ∈ (headers.getD []).map Prod.snd := by
  obtain ⟨header, hfound, rfl⟩ := Option.map_eq_some_iff.mp h
  exact List.mem_map_of_mem (List.mem_of_find?_eq_some hfound)

theorem storable_uuidText (id : Uuid) : (uuidText id).storable = true := by
  have hdigit : ∀ n < 16, hexDigit n ≠ 0 := by decide
  refine storable_iff.mpr fun hmem => ?_
  rcases mem_hyphenate hmem with hzero | hmem
  · cases hzero
  · obtain ⟨i, -, hi⟩ := List.mem_map.mp hmem
    exact hdigit _ (Nat.mod_lt _ (by decide)) hi

/-! ### What a projection stores -/

/-- The values that are read off a storable email. -/
theorem storable_parseInboundEmail (rt : Runtime Digest) (h : StorableEmail event email) :
    (parseInboundEmail rt event email).internetMessageId.storable = true ∧
    (∀ id ∈ (parseInboundEmail rt event email).effectiveParentInternetMessageId,
      id.storable = true) ∧
    (∀ id ∈ (parseInboundEmail rt event email).references, id.storable = true) ∧
    (parseInboundEmail rt event email).participant.address.storable = true ∧
    ∀ name ∈ (parseInboundEmail rt event email).displayFrom.name, name.storable = true := by
  have hfrom : email.from.storable = true := h _ (by simp [ResendEmail.texts])
  have hheader : ∀ name, ∀ v ∈ getHeader rt.toLowerCase email.headers name, v.storable = true := by
    intro name v hv
    have hmem := mem_headers_of_getHeader hv
    exact h v (List.mem_append_right _ (by simp only [ResendEmail.texts, List.mem_append]; tauto))
  have hids := fun name => storable_extractMessageIds (hheader name)
  have hinReplyTo :
      ∀ id ∈ (extractMessageIds
      (getHeader rt.toLowerCase email.headers (js "in-reply-to"))).getLast?,
      id.storable = true := fun id hid => hids _ id (List.mem_of_getLast? hid)
  have hraw : ∀ n,
      ∀ id ∈ ((extractMessageIds (getHeader rt.toLowerCase email.headers (js "references"))).filter
      fun id => id.length ≤ 998).drop n, id.storable = true :=
    fun n id hid => hids _ id (List.mem_filter.mp (List.mem_of_mem_drop hid)).1
  refine ⟨?_, fun id hid => ?_, fun id hid => ?_, (storable_parseAddress ?_).1,
    (storable_parseAddress ?_).2⟩
  · change (event.messageId.getD email.messageId).storable = true
    cases hmid : event.messageId with
    | none => exact h _ (by simp [ResendEmail.texts])
    | some mid => exact h _ (by simp [EmailEventData.texts, hmid])
  · rcases Option.or_eq_some_iff.mp hid with hid | ⟨-, hid⟩
    · exact hinReplyTo id hid
    · exact hraw _ id (List.mem_of_getLast? hid)
  · unfold parseInboundEmail at hid
    dsimp only at hid
    split at hid
    next parent hparent =>
      rcases List.mem_append.mp hid with hid | hid
      · exact hraw _ id (List.mem_filter.mp hid).1
      · obtain rfl := List.mem_singleton.mp hid
        exact hinReplyTo _ hparent
    · exact hraw _ id hid
  · unfold orNull
    split
    · exact hfrom
    · exact h _ (by simp [EmailEventData.texts])
  · cases hname : getHeader rt.toLowerCase email.headers (js "from") with
    | none => exact hfrom
    | some value => exact hheader _ value hname

/-- Of a storable email a row is stored. -/
theorem storable_inboundMessage (rt : Runtime Digest) (h : StorableEmail event email) (now : Time)
    (id conversationId : Uuid) (parentMessageId : Option Uuid) :
    (inboundMessage event email (parseInboundEmail rt event email) now id conversationId
      parentMessageId : EmailMessage Digest).texts.all JsString.storable = true := by
  obtain ⟨hmid, hparent, hreferences, haddress, hname⟩ := storable_parseInboundEmail rt h
  refine List.all_eq_true.mpr fun t ht => ?_
  have hto : ((email.to.head?.or event.to.head?).getD []).storable = true := by
    cases hrecipient : email.to.head?.or event.to.head? with
    | none => rfl
    | some recipient =>
        rcases Option.or_eq_some_iff.mp hrecipient with hhead | ⟨-, hhead⟩
        · exact h recipient (by simp [ResendEmail.texts, List.mem_of_head? hhead])
        · exact h recipient (by simp [EmailEventData.texts, List.mem_of_head? hhead])
  rw [inboundMessage] at ht
  simp only [EmailMessage.texts, List.mem_append, List.mem_cons, List.not_mem_nil, or_false,
    Option.mem_toList, Option.toList_none, Option.toList_some, Option.getD_none, List.flatMap_nil,
      or_assoc] at ht
  rcases ht with rfl | rfl | rfl | rfl | rfl | ht | ht | ht | ht | ht | ht
  · exact haddress
  · exact hto
  · exact h _ (by simp [ResendEmail.texts])
  · exact h _ (by simp [EmailEventData.texts])
  · exact hmid
  · exact hparent t ht
  · exact hreferences t ht
  · exact hname t ht
  · obtain ⟨addresses, haddresses, hhead⟩ := Option.bind_eq_some_iff.mp ht
    exact h t (by simp [ResendEmail.texts, haddresses, List.mem_of_head? hhead])
  · exact h t (by simp [ResendEmail.texts, ht])
  · exact h t (by simp [ResendEmail.texts, ht])

/-- The conversation that a storable email starts is stored. -/
theorem storable_newConversation (rt : Runtime Digest) (h : StorableEmail event email)
    {c : EmailConversation} (htoken : ∃ id, c.routingToken = uuidText id)
    (htitle : c.title = normalizeSubject email.subject)
    (hsubject : c.subject = normalizeSubject email.subject)
    (hparticipant : c.participantAddress = (parseInboundEmail rt event email).participant.address)
    (hname : c.participantName = (parseInboundEmail rt event email).displayFrom.name)
    (htype : c.topicType = none) (htopic : c.externalTopicId = none)
    (hbase : c.replyToBaseAddress = none) :
    c.texts.all JsString.storable = true := by
  obtain ⟨-, -, -, haddress, hdisplay⟩ := storable_parseInboundEmail rt h
  obtain ⟨id, htoken⟩ := htoken
  have hnormal : (normalizeSubject email.subject).storable = true :=
    storable_normalizeSubject (h _ (by simp [ResendEmail.texts]))
  refine List.all_eq_true.mpr fun t ht => ?_
  simp only [EmailConversation.texts, htoken, htitle, hsubject, hparticipant, hname, htype,
    htopic, hbase,
    List.mem_append, List.mem_cons, List.not_mem_nil, or_false, Option.mem_toList,
      Option.toList_none,
    or_assoc] at ht
  rcases ht with rfl | rfl | rfl | rfl | ht
  · exact storable_uuidText id
  · exact hnormal
  · exact hnormal
  · exact haddress
  · exact hdisplay t ht

theorem storable_normalizeFilename (value : Option JsString) :
    (normalizeFilename value).storable = true := by
  unfold normalizeFilename
  split
  · decide
  · dsimp only
    split
    · decide
    · refine storable_iff.mpr fun hmem => ?_
      have hkept := trim_subset _ _ (List.mem_of_mem_take hmem)
      simp [stripControlCharacters] at hkept

theorem storable_normalizeContentType (toLowerCase : JsString → JsString)
    (value : Option JsString) :
    (normalizeContentType toLowerCase value).storable = true := by
  unfold normalizeContentType
  split
  · decide
  · dsimp only
    split
    next type subtype hsplit =>
      split
      next htokens =>
        rw [Bool.and_eq_true] at htokens
        refine storable_iff.mpr fun hmem => ?_
        -- a character of the type is the slash or one of a token
        rcases mem_split 47 (List.mem_of_mem_take hmem) with hslash | ⟨w, hw, hzero⟩
        · cases hslash
        · rw [hsplit] at hw
          have htoken : isContentTypeToken w = true := by
            simp only [List.mem_cons, List.not_mem_nil, or_false] at hw
            rcases hw with rfl | rfl
            · exact htokens.1
            · exact htokens.2
          rw [isContentTypeToken, Bool.and_eq_true, List.all_eq_true] at htoken
          exact absurd (htoken.2 0 hzero) (by decide)
      · decide
    · decide

theorem storable_normalizeContentId {value : Option JsString} (h : ∀ v ∈ value, v.storable = true) :
    ∀ id ∈ normalizeContentId value, id.storable = true := by
  intro id hid
  obtain ⟨v, hv, hid⟩ := Option.bind_eq_some_iff.mp hid
  obtain ⟨-, hid⟩ := Option.ite_none_left_eq_some.mp hid
  obtain rfl := Option.some.inj hid
  refine storable_of_subset (fun c hc => ?_) (h v hv)
  exact mem_of_mem_tail_if (mem_of_mem_dropLast_if (trim_subset _ c (List.mem_of_mem_take hc)))

/-- The metadata of an attachment of a storable email is stored. -/
theorem storable_attachment (h : StorableEmail event email) {attachment : ResendReceivedAttachment}
    (hmem : attachment ∈ email.attachments.getD []) {a : EmailAttachment}
    {toLowerCase : JsString → JsString}
    (hfilename : a.filename = normalizeFilename attachment.filename)
    (hcontentType : a.contentType = normalizeContentType toLowerCase attachment.contentType)
    (hcontentId : a.contentId = normalizeContentId attachment.contentId)
    (hdetail : a.stateDetail = none) (hemail : a.resendEmailId = some event.emailId)
    (hid : a.resendAttachmentId = some attachment.id) :
    a.texts.all JsString.storable = true := by
  have htexts : ∀ t ∈ attachment.texts, t.storable = true := fun t ht => h t (by
    refine List.mem_append_right
      _ (List.mem_append_right _ (List.mem_flatMap.mpr ⟨attachment, hmem, ht⟩)))
  refine List.all_eq_true.mpr fun t ht => ?_
  simp only [EmailAttachment.texts, hfilename, hcontentType, hcontentId, hdetail, hemail, hid,
    List.mem_append,
    List.mem_cons, List.not_mem_nil, or_false, Option.mem_toList, Option.toList_none,
      Option.toList_some,
    or_assoc] at ht
  rcases ht with rfl | rfl | ht | rfl | rfl
  · exact storable_normalizeFilename _
  · exact storable_normalizeContentType _ _
  · refine storable_normalizeContentId (fun v hv => htexts v ?_) t ht
    simp [ResendReceivedAttachment.texts, Option.mem_def.mp hv]
  · exact h _ (by simp [EmailEventData.texts])
  · exact htexts _ (by simp [ResendReceivedAttachment.texts])

end ResendConversation
