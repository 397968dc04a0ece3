import ResendConversation.MergeThreads

/-! # Recording a Message-ID as events

`recordOutboundInternetMessageId` lets an outbound message learn its Message-ID, merges the
unassigned conversations of the replies that wait for it, and lets the message adopt those
that are in its conversation then. -/

namespace ResendConversation

open Foundation Tx

variable {Digest : Type} {lower : JsString → JsString}

/-! ### Statements -/

theorem threads_updateMessage {db : Database Digest} {id : Uuid}
    {f : EmailMessage Digest → EmailMessage Digest} {keep : ∀ m, (f m).id = m.id}
    {g : ThreadView → ThreadView} (hg : ∀ m, (f m).threadView = g m.threadView) :
    Database.threads { db with messages := db.messages.update (fun m => m.id == id) f keep } =
      db.threads.onMessage id g := by
  rw [threads_updateMessages]
  refine Threads.ext rfl (funext fun k => ?_) rfl rfl
  simp only [Threads.onMessage, Database.threads]
  cases hk : db.messages.get? k with
  | none => simp
  | some m =>
      have hid := Table.key_of_get? hk
      simp only [Option.map_some, hid]
      by_cases h : k = id <;> simp [h, hg]

/-- The replies that a statement selects. -/
def selectedIds (db : Database Digest) (p : EmailMessage Digest → Bool) : List Uuid :=
  (db.messages.select p).map EmailMessage.id

theorem mem_selectedIds {db : Database Digest} {p : EmailMessage Digest → Bool} {k : Uuid} :
    k ∈ selectedIds db p ↔ ∃ m, db.messages.get? k = some m ∧ p m = true := by
  simp only [selectedIds, List.mem_map, Table.mem_select]
  constructor
  · rintro ⟨m, ⟨hm, hp⟩, rfl⟩
    exact ⟨m, Table.mem_iff_get?.mp hm, hp⟩
  · rintro ⟨m, hm, hp⟩
    exact ⟨m, ⟨Table.mem_of_get? hm, hp⟩, Table.key_of_get? hm⟩

theorem adoptReplies_threads {parentMessageId : Uuid} {p : EmailMessage Digest → Bool}
    {db db' : Database Digest} {u : Unit} (h : adoptReplies parentMessageId p db = .ok (u, db')) :
    db'.threads = db.threads.apply (.adopted parentMessageId (selectedIds db p)) := by
  simp only [adoptReplies, bind_eq_ok, updateMessages_eq_ok, pure_eq_ok] at h
  obtain ⟨_, _, ⟨-, rfl⟩, -, rfl⟩ := h
  rw [threads_updateMessages]
  refine Threads.ext rfl (funext fun k => ?_) rfl rfl
  simp only [Threads.apply, Database.threads, Option.map_map]
  cases hk : db.messages.get? k with
  | none => rfl
  | some m =>
      have hmem : k ∈ selectedIds db p ↔ p m = true := by simp [mem_selectedIds, hk]
      by_cases hp : p m = true <;> simp [hmem, hp, EmailMessage.threadView]

theorem still_refreshLastMessageAt (id : Uuid) :
    Preserves Still (refreshLastMessageAt id : Transaction Digest _) := by
  refine .bind .get fun db => ?_
  split
  · exact .pure _
  · exact .bind (still_updateConversation fun _ => rfl) fun _ => .pure _

/-- What the check of the Message-ID says of the other messages. -/
theorem unused_of_check {db : Database Digest} {id : Uuid} {internetMessageId : Option JsString}
    (h : ∀ m ∈ db.messages, m.id ≠ id → internetMessageId.isSome →
      m.internetMessageId ≠ internetMessageId) : db.threads.Unused id internetMessageId := by
  rintro mid k v rfl hne hv heq
  obtain ⟨m, hm, rfl⟩ := Option.map_eq_some_iff.mp hv
  exact h m (Table.mem_of_get? hm) (Table.key_of_get? hm ▸ hne) rfl heq

/-! ### The queries -/

theorem mem_eligibleFor {rt : Runtime Digest} {db : Database Digest}
    {scan : Scan (EmailMessage Digest)} {participant : JsString} {p : EmailMessage Digest → Bool}
    {t : ThreadedMessage Digest} : t ∈ eligibleFor rt db scan participant p ↔
      t.message ∈ db.messages ∧ p t.message = true ∧ t.message.kind = .conversation ∧
        t.message.conversationId = some t.conversation.id ∧
        db.conversations.get? t.conversation.id = some t.conversation ∧
        rt.toLowerCase t.conversation.participantAddress = participant := by
  simp only [eligibleFor, withConversations, List.mem_filter, List.mem_filterMap,
    (scan.perm _).mem_iff, Table.mem_select, beq_iff_eq]
  constructor
  · rintro ⟨⟨m, ⟨hm, hp⟩, ht⟩, hparticipant⟩
    split at ht
    next c hkind hc =>
      obtain ⟨row, hrow, rfl⟩ := Option.map_eq_some_iff.mp ht
      have hid := Table.key_of_get? hrow
      subst hid
      exact ⟨hm, hp, hkind, hc, hrow, hparticipant⟩
    next => cases ht
  · rintro ⟨hm, hp, hkind, hc, hrow, hparticipant⟩
    refine ⟨⟨t.message, ⟨hm, hp⟩, ?_⟩, hparticipant⟩
    rw [hkind, hc]
    simp [hrow]

/-- The unassigned conversations are those of messages without a topic, other than the target. -/
theorem mem_unassignedConversations {target c : Uuid} {related : List (ThreadedMessage Digest)} :
    c ∈ unassignedConversations target related ↔
      ∃ t ∈ related, t.conversation.id = c ∧ c ≠ target ∧ t.conversation.topicType = none := by
  simp only [unassignedConversations, mem_unique, List.mem_map, List.mem_filter, Bool.and_eq_true,
    bne_iff_ne, Option.isNone_iff_eq_none]
  constructor
  · rintro ⟨t, ⟨ht, hne, hnone⟩, rfl⟩
    exact ⟨t, ht, rfl, hne, hnone⟩
  · rintro ⟨t, ht, rfl, hne, hnone⟩
    exact ⟨t, ⟨ht, hne, hnone⟩, rfl⟩

/-! ### The transaction -/

/-- The threads around the recording of a Message-ID: the message of the conversation `c` learns
it, the sources are merged into `c`, and the children are adopted. -/
structure Recorded (lower : JsString → JsString) (t t' : Threads) (id : Uuid) (mid : JsString)
    (c : Uuid) (sources children : List Uuid) : Prop where
  message : ∃ v, t.messages id = some v ∧ v.direction = .outbound ∧ v.conversationId = some c
  unused : t.Unused id (some mid)
  target_notMem : c ∉ sources
  absorbable : ∃ row, t.conversations c = some row ∧ ∀ s ∈ sources, ∃ source,
    t.conversations s = some source ∧ source.topicType = none ∧
      lower source.participantAddress = lower row.participantAddress
  waiting : ∀ k ∈ children, ∃ v, t.messages k = some v ∧ v.parentMessageId = none ∧
    v.inReplyToInternetMessageId = some mid ∧ (v.move c sources).conversationId = some c
  nextId_le : t.nextId ≤ t'.nextId
  after : t' = { ((t.apply (.identified id mid)).absorb c sources).apply (.adopted id children) with
    nextId := t'.nextId }

/-- The messages after a merge, if there is one. -/
theorem Threads.absorb_messages (t : Threads) (c : Uuid) (sources : List Uuid) (k : Uuid) :
    (t.absorb c sources).messages k = (t.messages k).map (ThreadView.move c sources) := by
  unfold Threads.absorb
  split
  next h =>
    subst h
    cases t.messages k with
    | none => rfl
    | some v => cases hv : v.conversationId <;> simp [ThreadView.move, hv]
  next => rfl

theorem EmailMessage.threadView_of_get? {db : Database Digest} {k : Uuid} {m : EmailMessage Digest}
    (h : db.messages.get? k = some m) : db.threads.messages k = some m.threadView := by
  simp [Database.threads, h]

/-- The view of a message that learned a Message-ID. -/
theorem Threads.identified_messages {t : Threads} {id k : Uuid} {mid : JsString} {v : ThreadView}
    (h : (t.apply (.identified id mid)).messages k = some v) : ∃ w, t.messages k = some w ∧
      v.parentMessageId = w.parentMessageId ∧ v.conversationId = w.conversationId ∧
      v.inReplyToInternetMessageId = w.inReplyToInternetMessageId := by
  simp only [Threads.apply, Threads.onMessage] at h
  split at h
  · obtain ⟨w, hw, rfl⟩ := Option.map_eq_some_iff.mp h
    exact ⟨w, hw, rfl, rfl, rfl⟩
  · exact ⟨v, h, rfl, rfl, rfl⟩

theorem ThreadView.move_conversationId_congr {c : Uuid} {sources : List Uuid} {v w : ThreadView}
    (h : v.conversationId = w.conversationId) :
    (v.move c sources).conversationId = (w.move c sources).conversationId := by
  simp only [ThreadView.move, h]
  split
  · rfl
  · exact h

section
variable {rt : Runtime Digest} {scan : Scan (EmailMessage Digest)} {participant mid : JsString}

/-- The replies that wait for the Message-ID. -/
abbrev waitingReplies (rt : Runtime Digest) (db : Database Digest)
    (scan : Scan (EmailMessage Digest)) (participant mid : JsString) :
    List (ThreadedMessage Digest) :=
  eligibleFor rt db scan participant fun m =>
    m.parentMessageId.isNone && m.inReplyToInternetMessageId == some mid

/-- Which waiting replies are adopted: those that are in the conversation by then. -/
abbrev isAdopted (c : Uuid) (related : List (ThreadedMessage Digest)) (m : EmailMessage Digest) :
    Bool :=
  (related.map fun t => t.message.id).contains m.id && m.conversationId == some c &&
    m.parentMessageId.isNone

/-- The adopted replies waited already before the merge. -/
theorem adopted_waiting {db db' : Database Digest} {c : Uuid} {sources : List Uuid}
    (hmoved : db'.threads.messages = fun k => (db.threads.messages k).map
      (ThreadView.move c sources)) {k : Uuid}
    (hk :
      k ∈ selectedIds db' (isAdopted c (waitingReplies rt db scan participant mid))) :
    ∃ v, db.threads.messages k = some v ∧ v.parentMessageId = none ∧
      v.inReplyToInternetMessageId = some mid ∧ (v.move c sources).conversationId = some c := by
  obtain ⟨m, hm, hsel⟩ := mem_selectedIds.mp hk
  simp only [Bool.and_eq_true, List.contains_iff_mem, List.mem_map, beq_iff_eq] at hsel
  obtain ⟨⟨⟨t, ht, hid⟩, hc⟩, -⟩ := hsel
  obtain ⟨htm, htp, -⟩ := mem_eligibleFor.mp ht
  simp only [Bool.and_eq_true, Option.isNone_iff_eq_none, beq_iff_eq] at htp
  have hget : db.messages.get? k = some t.message := by
    rw [← Table.key_of_get? hm, ← hid]
    exact Table.mem_iff_get?.mp htm
  have hview := EmailMessage.threadView_of_get? hm
  rw [hmoved] at hview
  dsimp only at hview
  rw [EmailMessage.threadView_of_get? hget, Option.map_some, Option.some.injEq] at hview
  exact ⟨_, EmailMessage.threadView_of_get? hget, htp.1, htp.2, by rw [hview]; exact hc⟩

/-- A merge that lets a message adopt replies before the sources are deleted. -/
theorem absorbWaiting_threads {config : Config} {now : Time} {id : Uuid}
    {target : EmailConversation} {db db₁ db' : Database Digest} {u u' : Unit}
    (hstored : db.Holds (waitingReplies rt db scan participant mid))
    (htarget : db.conversations.get? target.id = some target)
    (hne : unassignedConversations target.id (waitingReplies rt db scan participant mid) ≠ [])
    (h₁ : preserveMergedConversationState target
      (((waitingReplies rt db scan participant mid).map ThreadedMessage.conversation).filter
        fun c =>
        (unassignedConversations target.id
          (waitingReplies rt db scan participant mid)).contains c.id)
      db = .ok (u, db₁))
    (h₂ : absorbConversations config now target.id
      (unassignedConversations target.id (waitingReplies rt db scan participant mid)) now
      (adoptReplies id (isAdopted target.id (waitingReplies rt db scan participant mid))) db₁ =
        .ok (u', db')) :
    ∃ children, (∀ k ∈ children, ∃ v, db.threads.messages k = some v ∧ v.parentMessageId = none ∧
        v.inReplyToInternetMessageId = some mid ∧
          (v.move target.id (unassignedConversations target.id
          (waitingReplies rt db scan participant mid))).conversationId = some target.id) ∧
      db.nextId ≤ db'.nextId ∧ db'.threads = { (db.threads.absorb target.id
        (unassignedConversations target.id (waitingReplies rt db scan participant mid))).apply
          (.adopted id children) with nextId := db'.nextId } := by
  set sources := unassignedConversations target.id (waitingReplies rt db scan participant mid)
    with hsources
  simp only [absorbConversations, bind_eq_ok, modify_eq_ok] at h₂
  obtain ⟨_, db₂, hmove, _, db₃, hrecord, _, db₄, hadopt, rfl⟩ := h₂
  obtain ⟨hn₁, ht₁⟩ := preserve_unassigned hstored htarget hne h₁
  have ht₂ := moveMessages_threads hmove
  have ht₃ := still_recordConversationMerges _ _ _ _ hrecord
  have ht₄ := adoptReplies_threads hadopt
  have hv : Vacant sources db₁ :=
    (keepsVacant_preserveMergedConversationState _ _ h₁).vacant (vacant_unassigned hstored)
  have he := (moveMessages_passive hv target_notMem_unassigned hmove).2
  obtain ⟨hn₅, ht₅⟩ :=
    deleteConversations_threads now ((keepsVacant_adoptReplies _ _ hadopt).emptied
    ((keepsVacant_recordConversationMerges _ _ _ _ hrecord).emptied he))
  have hn₂ : db₂.nextId = db₁.nextId := congrArg Threads.nextId ht₂
  have hn₄ : db₄.nextId = db₃.nextId := congrArg Threads.nextId ht₄
  have hmoved : db₃.threads.messages = fun k =>
      (db.threads.messages k).map (ThreadView.move target.id sources) := by
    rw [ht₃.threads, ht₂, ht₁]
    rfl
  refine ⟨selectedIds db₃ (isAdopted target.id (waitingReplies rt db scan participant mid)),
    fun k => adopted_waiting hmoved, ?_, ?_⟩
  · exact hn₁.trans (hn₂.ge.trans (ht₃.nextId_le.trans (hn₄.ge.trans hn₅)))
  · rw [ht₅, ht₄, ht₃.threads, ht₂, ht₁, Threads.absorb, if_neg hne,
      ← merged_eq target_notMem_unassigned]
    rfl

end

theorem recordOutboundInternetMessageId_threads {rt : Runtime Digest} {config : Config}
    {scan : Scan (EmailMessage Digest)} {now emailCreatedAt : Time} {id : Uuid} {mid : JsString}
    {db db' : Database Digest} {m : EmailMessage Digest}
    (h : recordOutboundInternetMessageId rt config scan now id mid emailCreatedAt db =
      .ok (m, db')) :
    ∃ c sources children,
      Recorded rt.toLowerCase db.threads db'.threads id mid c sources children := by
  obtain ⟨_, _, hget, h⟩ := bind_eq_ok.mp h
  obtain ⟨rfl, rfl⟩ := get_eq_ok.mp hget
  obtain ⟨outbound, _, hfind, h⟩ := bind_eq_ok.mp h
  obtain ⟨hfound, rfl⟩ := orThrow_eq_ok.mp hfind
  obtain ⟨_, _, hcheck, h⟩ := bind_eq_ok.mp h
  obtain ⟨hvalid, rfl⟩ := ensure_eq_ok.mp hcheck
  obtain ⟨c, _, hplace, h⟩ := bind_eq_ok.mp h
  obtain ⟨hc, rfl⟩ := orThrow_eq_ok.mp hplace
  obtain ⟨row, _, hconversation, h⟩ := bind_eq_ok.mp h
  obtain ⟨hrow, rfl⟩ := orThrow_eq_ok.mp hconversation
  obtain ⟨updated, db₁, h₁, h⟩ := bind_eq_ok.mp h
  obtain ⟨_, _, hget, h⟩ := bind_eq_ok.mp h
  obtain ⟨rfl, rfl⟩ := get_eq_ok.mp hget
  dsimp only at h
  simp only [Bool.and_eq_true, beq_iff_eq] at hvalid
  have hid := Table.key_of_get? hfound
  have hrowid := Table.key_of_get? hrow
  -- the message learns its Message-ID
  obtain ⟨m₀, hm₀, ⟨_, hchecked⟩, -, heq₁⟩ := updateMessage_eq_ok.mp h₁
  have hunused : db.threads.Unused id (some mid) := by
    have hnot := not_takenBy.mp (checkMessage_eq_ok.mp hchecked).2.1
    refine unused_of_check fun m hm hne hsome => hnot m hm ?_ rfl
    rw [Table.key_of_get? hm₀, hid]
    exact hne
  have ht₁ : db₁.threads = db.threads.apply (.identified id mid) := by
    rw [heq₁, hid]
    exact threads_updateMessage fun _ => rfl
  have hrow₁ : db₁.conversations = db.conversations := by rw [heq₁]
  have hstored :
      db₁.Holds (waitingReplies rt db₁ scan (rt.toLowerCase row.participantAddress) mid) :=
    fun t ht => conversation_of_mem_eligibleFor ht
  set sources := unassignedConversations c
    (waitingReplies rt db₁ scan (rt.toLowerCase row.participantAddress) mid) with hsources
  have habsorb : ∃ row, db.threads.conversations c = some row ∧ ∀ s ∈ sources, ∃ source,
      db.threads.conversations s = some source ∧ source.topicType = none ∧
        rt.toLowerCase source.participantAddress = rt.toLowerCase row.participantAddress := by
    refine ⟨row.view, by simp [Database.threads, hrow], fun s hs => ?_⟩
    obtain ⟨t, ht, rfl, -, htopic⟩ := mem_unassignedConversations.mp hs
    obtain ⟨-, -, -, -, hget, hparticipant⟩ := mem_eligibleFor.mp ht
    rw [hrow₁] at hget
    exact ⟨t.conversation.view, by simp [Database.threads, hget], htopic, hparticipant⟩
  -- a message that waits in the new state waited before
  have hwaiting : ∀ children : List Uuid, (∀ k ∈ children, ∃ v, db₁.threads.messages k = some v ∧
      v.parentMessageId = none ∧ v.inReplyToInternetMessageId = some mid ∧
      (v.move c sources).conversationId = some c) →
      ∀ k ∈ children, ∃ v, db.threads.messages k = some v ∧ v.parentMessageId = none ∧
        v.inReplyToInternetMessageId = some mid ∧ (v.move c sources).conversationId = some c := by
    intro children hchildren k hk
    obtain ⟨v, hv, hp, hr, hmove⟩ := hchildren k hk
    rw [ht₁] at hv
    obtain ⟨w, hw, hpw, hcw, hrw⟩ := Threads.identified_messages hv
    exact ⟨w, hw, hpw ▸ hp, hrw ▸ hr, ThreadView.move_conversationId_congr hcw ▸ hmove⟩
  have hmessage : ∃ v, db.threads.messages id = some v ∧ v.direction = .outbound ∧
      v.conversationId = some c :=
    ⟨outbound.threadView, EmailMessage.threadView_of_get? hfound, hvalid.1, hc⟩
  have htarget : c ∉ sources := target_notMem_unassigned
  have hn₁ : db₁.nextId = db.nextId := congrArg Threads.nextId ht₁
  by_cases hempty : sources.isEmpty = true
  · rw [if_pos hempty] at h
    obtain ⟨_, db₂, h₂, h⟩ := bind_eq_ok.mp h
    obtain ⟨_, db₃, h₃, h⟩ := bind_eq_ok.mp h
    obtain ⟨-, rfl⟩ := pure_eq_ok.mp h
    have hnil := List.isEmpty_iff.mp hempty
    have ht₂ := adoptReplies_threads h₂
    have ht₃ := still_refreshLastMessageAt _ h₃
    have hn₂ : db₂.nextId = db₁.nextId := congrArg Threads.nextId ht₂
    have hmoved : db₁.threads.messages = fun k =>
        (db₁.threads.messages k).map (ThreadView.move c sources) := by
      funext k
      rw [← Threads.absorb_messages, Threads.absorb, if_pos hnil]
    refine ⟨c, sources, selectedIds db₁ (isAdopted c (waitingReplies rt db₁ scan
      (rt.toLowerCase row.participantAddress) mid)), hmessage, hunused, htarget, habsorb,
      hwaiting _ fun k => adopted_waiting hmoved, ?_, ?_⟩
    · exact hn₁.ge.trans (hn₂.ge.trans ht₃.nextId_le)
    · rw [ht₃.threads, ht₂, Threads.absorb, if_pos hnil, ht₁, hid]
  · rw [if_neg hempty] at h
    obtain ⟨_, db₂, h₂, h⟩ := bind_eq_ok.mp h
    obtain ⟨_, db₃, h₃, h⟩ := bind_eq_ok.mp h
    obtain ⟨_, db₄, h₄, h⟩ := bind_eq_ok.mp h
    obtain ⟨-, rfl⟩ := pure_eq_ok.mp h
    subst hrowid
    have htarget₁ : db₁.conversations.get? row.id = some row := hrow₁ ▸ hrow
    obtain ⟨children, hchildren, hn₃, ht₃⟩ := absorbWaiting_threads hstored htarget₁
      (unassigned_ne_nil hempty) h₂ h₃
    have ht₄ := still_refreshLastMessageAt _ h₄
    refine ⟨row.id, sources, children, hmessage, hunused, htarget, habsorb, hwaiting _ hchildren,
      ?_, ?_⟩
    · exact hn₁.ge.trans (hn₃.trans ht₄.nextId_le)
    · rw [ht₄.threads, ht₃, ht₁, hid]

/-! ### Consequences -/

/-- Events of mail that comes and goes; the others rewrite a conversation on request. -/
def ThreadEvent.IsMail : ThreadEvent → Prop
  | .reopened .. | .assigned .. | .overridden .. | .deleted .. => False
  | _ => True

/-- Events of mail that set no Reply-To base. -/
def ThreadEvent.IsUnbased : ThreadEvent → Prop
  | .begun _ row => row.replyToBaseAddress = none
  | .promoted .. | .reopened .. | .assigned .. | .overridden .. | .deleted .. => False
  | _ => True

theorem ThreadEvent.IsUnbased.isMail {e : ThreadEvent} (h : e.IsUnbased) : e.IsMail := by
  cases e with
  | promoted c base => exact h.elim
  | begun c row => trivial
  | _ => exact h

theorem ThreadEvent.IsMinor.isUnbased {e : ThreadEvent} (h : e.IsMinor) : e.IsUnbased := by
  cases e with
  | drawn n => trivial
  | turned c state => trivial
  | _ => exact h.elim

/-- Events that neither merge conversations nor let a message adopt another.  The Reply-To bases
that they set are among the given ones. -/
def ThreadEvent.IsPlain (B : Set JsString) : ThreadEvent → Prop
  | .drawn .. | .stored .. | .identified .. | .turned .. => True
  | .begun _ row => ∀ b, row.replyToBaseAddress = some b → b ∈ B
  | .promoted _ base => base ∈ B
  | _ => False

theorem ThreadEvent.IsMinor.isPlain {B : Set JsString} {e : ThreadEvent} (h : e.IsMinor) :
    e.IsPlain B := by
  cases e with
  | drawn n => trivial
  | turned c state => trivial
  | _ => exact h.elim

theorem ThreadEvent.IsPlain.subset {B B' : Set JsString} {e : ThreadEvent} (h : e.IsPlain B)
    (hB : B ⊆ B') :
    e.IsPlain B' := by
  cases e with
  | begun c row => exact fun b hb => hB (h b hb)
  | promoted c base => exact hB h
  | _ => exact h

theorem ThreadEvent.IsPlain.isMail {B : Set JsString} {e : ThreadEvent} (h : e.IsPlain B) :
    e.IsMail := by
  cases e <;> trivial

/-- A merge, if there is one, explained by its event. -/
theorem explains_absorb {t : Threads} {c : Uuid} {sources : List Uuid} {P : ThreadEvent → Prop}
    (hP : P (.merged c sources)) (htarget : c ∉ sources)
    (h : ∃ row, t.conversations c = some row ∧ ∀ s ∈ sources, ∃ source,
      t.conversations s = some source ∧ source.topicType = none ∧
        lower source.participantAddress = lower row.participantAddress) :
    (threading lower).Explains P t (t.absorb c sources) := by
  unfold Threads.absorb
  split
  · exact .refl t
  next hne => exact Threads.explains hP ⟨hne, htarget, h⟩

theorem ThreadView.move_of_notMem {c d : Uuid} {sources : List Uuid} {v : ThreadView}
    (hc : v.conversationId = some d) (hd : d ∉ sources) : v.move c sources = v := by
  simp [ThreadView.move, hc, hd]

/-- Where a message was before a merge. -/
theorem ThreadView.conversationId_of_move {target d : Uuid} {sources : List Uuid} {v : ThreadView}
    (h : (v.move target sources).conversationId = some d) :
    ∃ c, v.conversationId = some c ∧ d = if c ∈ sources then target else c := by
  unfold ThreadView.move at h
  cases hc : v.conversationId with
  | none => simp [hc] at h
  | some c =>
      refine ⟨c, rfl, ?_⟩
      simp only [hc, Option.any_some, List.contains_iff_mem] at h
      split at h
      next hmem =>
        rw [if_pos hmem]
        exact (Option.some.inj h).symm
      next hnot =>
        rw [if_neg hnot]
        exact Option.some.inj (h.symm.trans hc)

namespace Recorded

variable {t t' : Threads} {id c : Uuid} {mid : JsString} {sources children : List Uuid}

/-- The threads before the message adopts its replies. -/
theorem enabled_adopted (h : Recorded lower t t' id mid c sources children) :
    ((t.apply (.identified id mid)).absorb c sources).Enabled lower (.adopted id children) := by
  obtain ⟨v, hv, -, hvc⟩ := h.message
  refine ⟨{ v with internetMessageId := some mid }, c, mid, ?_, hvc, rfl, fun k hk => ?_⟩
  · rw [Threads.absorb_messages]
    have hmove : ThreadView.move c sources { v with internetMessageId := some mid } =
        { v with internetMessageId := some mid } := ThreadView.move_of_notMem hvc h.target_notMem
    simp [Threads.apply, Threads.onMessage, hv, hmove]
  · obtain ⟨w, hw, hparent, hreply, hmove⟩ := h.waiting k hk
    rw [Threads.absorb_messages]
    by_cases hkid : k = id
    · refine ⟨ThreadView.move c sources { w with internetMessageId := some mid },
        by simp [Threads.apply, Threads.onMessage, hkid ▸ hw, hkid], ?_⟩
      have hconv :
        (ThreadView.move c sources { w with internetMessageId := some mid }).conversationId =
          some c := by
        rw [← hmove]
        exact ThreadView.move_conversationId_congr rfl
      refine ⟨?_, hconv, ?_⟩
      · simp only [ThreadView.move]
        split <;> exact hparent
      · simp only [ThreadView.move]
        split <;> exact hreply
    · refine ⟨w.move c sources, by simp [Threads.apply, Threads.onMessage, hw, hkid], ?_, hmove, ?_⟩
      · simp only [ThreadView.move]
        split <;> exact hparent
      · simp only [ThreadView.move]
        split <;> exact hreply

theorem unbased (h : Recorded lower t t' id mid c sources children) :
    (threading lower).Explains ThreadEvent.IsUnbased t t' := by
  obtain ⟨v, hv, -, hvc⟩ := h.message
  have hidentified : (threading lower).Explains ThreadEvent.IsUnbased t
      (t.apply (.identified id mid)) :=
    Threads.explains trivial ⟨⟨v, hv, hvc ▸ rfl⟩, h.unused⟩
  have habsorb : (threading lower).Explains ThreadEvent.IsUnbased (t.apply (.identified id mid))
      ((t.apply (.identified id mid)).absorb c sources) :=
    explains_absorb trivial h.target_notMem h.absorbable
  have hadopted : (threading lower).Explains ThreadEvent.IsUnbased
      ((t.apply (.identified id mid)).absorb c sources)
      (((t.apply (.identified id mid)).absorb c sources).apply (.adopted id children)) :=
    Threads.explains trivial h.enabled_adopted
  have hn : (((t.apply (.identified id mid)).absorb c sources).apply
      (.adopted id children)).nextId = t.nextId := by
    unfold Threads.absorb
    split <;> rfl
  have hdrawn : (threading lower).Explains ThreadEvent.IsUnbased
      (((t.apply (.identified id mid)).absorb c sources).apply (.adopted id children)) t' := by
    rw [h.after]
    exact Threads.explains (e := .drawn t'.nextId) trivial (hn.trans_le h.nextId_le)
  exact hidentified.trans (habsorb.trans (hadopted.trans hdrawn))

theorem explained (h : Recorded lower t t' id mid c sources children) :
    (threading lower).Explains ThreadEvent.IsMail t t' := h.unbased.mono fun _ =>
      ThreadEvent.IsUnbased.isMail

end Recorded

theorem conversationId_of_isAdopted {c : Uuid} {related : List (ThreadedMessage Digest)}
    {m : EmailMessage Digest} (h : isAdopted c related m = true) : m.conversationId.isSome := by
  simp only [isAdopted, Bool.and_eq_true, beq_iff_eq] at h
  simp [h.1.2]

/-- A merge that lets a stored message adopt replies keeps a database sound. -/
theorem keeps_absorbWaiting {config : Config} {now : Time} {id : Uuid} {target : EmailConversation}
    {rows : List EmailConversation} {sources : List Uuid} {related : List (ThreadedMessage Digest)}
    {db db₁ db' : Database Digest} {u u' : Unit}
    (htarget : (db.conversations.get? target.id).isSome) (hparent : (db.messages.get? id).isSome)
    (h₁ : preserveMergedConversationState target rows db = .ok (u, db₁))
    (h₂ : absorbConversations config now target.id sources now
      (adoptReplies id (isAdopted target.id related)) db₁ = .ok (u', db')) : Keeps db db' := by
  simp only [absorbConversations, bind_eq_ok] at h₂
  obtain ⟨_, db₂, hmove, _, db₃, hrecord, _, db₄, hadopt, hdelete⟩ := h₂
  have hparent₃ : (db₃.messages.get? id).isSome := by
    have hview₁ : db₁.threads.messages = db.threads.messages := preserve_messages h₁
    have hview₃ : (db₃.threads.messages id).isSome := by
      rw [(still_recordConversationMerges _ _ _ _ hrecord).threads,
        moveMessages_threads hmove, hview₁]
      simpa [Database.threads] using hparent
    simpa [Database.threads] using hview₃
  intro hs
  have hs₁ := keeps_preserveMergedConversationState _ _ h₁ hs
  have hs₂ := keeps_moveMessages (preserve_found htarget h₁) hmove hs₁
  have hs₄ := keeps_adoptReplies hparent₃ (fun m => conversationId_of_isAdopted) hadopt
    (keeps_recordConversationMerges _ _ _ _ hrecord hs₂)
  exact keeps_deleteConversations _ _ hdelete hs₄

theorem keeps_recordOutboundInternetMessageId (rt : Runtime Digest) (config : Config)
    (scan : Scan (EmailMessage Digest)) (now : Time) (id : Uuid) (mid : JsString)
    (emailCreatedAt : Time) :
    Preserves Keeps (recordOutboundInternetMessageId rt config scan now id mid emailCreatedAt) := by
  intro db m db' h
  obtain ⟨_, _, hget, h⟩ := bind_eq_ok.mp h
  obtain ⟨rfl, rfl⟩ := get_eq_ok.mp hget
  obtain ⟨outbound, _, hfind, h⟩ := bind_eq_ok.mp h
  obtain ⟨hfound, rfl⟩ := orThrow_eq_ok.mp hfind
  obtain ⟨_, _, hcheck, h⟩ := bind_eq_ok.mp h
  obtain ⟨hvalid, rfl⟩ := ensure_eq_ok.mp hcheck
  obtain ⟨c, _, hplace, h⟩ := bind_eq_ok.mp h
  obtain ⟨hc, rfl⟩ := orThrow_eq_ok.mp hplace
  obtain ⟨row, _, hconversation, h⟩ := bind_eq_ok.mp h
  obtain ⟨hrow, rfl⟩ := orThrow_eq_ok.mp hconversation
  obtain ⟨updated, db₁, h₁, h⟩ := bind_eq_ok.mp h
  obtain ⟨_, _, hget, h⟩ := bind_eq_ok.mp h
  obtain ⟨rfl, rfl⟩ := get_eq_ok.mp hget
  dsimp only at h
  have hrowid := Table.key_of_get? hrow
  have hparent₁ : (db₁.messages.get? outbound.id).isSome := by
    obtain ⟨m₀, hm₀, -, -, heq₁⟩ := updateMessage_eq_ok.mp h₁
    rw [heq₁]
    simp [Table.get?_update, hm₀]
  have hrow₁ : (db₁.conversations.get? row.id).isSome := by
    obtain ⟨-, -, -, -, heq₁⟩ := updateMessage_eq_ok.mp h₁
    rw [heq₁, hrowid]
    exact Option.isSome_iff_exists.mpr ⟨row, hrow⟩
  refine IsTrans.trans (r := Keeps) _ _ _ (keeps_updateMessage h₁) ?_
  split at h
  · obtain ⟨_, db₂, h₂, h⟩ := bind_eq_ok.mp h
    obtain ⟨_, db₃, h₃, h⟩ := bind_eq_ok.mp h
    obtain ⟨-, rfl⟩ := pure_eq_ok.mp h
    exact fun hs => keeps_refreshLastMessageAt _ h₃
      (keeps_adoptReplies hparent₁ (fun m => conversationId_of_isAdopted) h₂ hs)
  · obtain ⟨_, db₂, h₂, h⟩ := bind_eq_ok.mp h
    obtain ⟨_, db₃, h₃, h⟩ := bind_eq_ok.mp h
    obtain ⟨_, db₄, h₄, h⟩ := bind_eq_ok.mp h
    obtain ⟨-, rfl⟩ := pure_eq_ok.mp h
    subst hrowid
    exact fun hs => keeps_refreshLastMessageAt _ h₄ (keeps_absorbWaiting hrow₁ hparent₁ h₂ h₃ hs)

end ResendConversation
