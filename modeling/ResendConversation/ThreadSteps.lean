import ResendConversation.Received
import ResendConversation.OperatorThreads

/-! # Steps as events of threads

`step_threading`: what one step of the system does to its threads.  A projection, a recording
of a Message-ID, a reopening and an operator's request are kept as the transactions that they
are; every other step is explained by plain events.  A handler carries the parent of a reply,
or a conversation to reopen, from one transaction to the next; `Proc.Bound` says what is still
true of it then. -/

namespace ResendConversation

open Foundation Tx

variable {Digest : Type} {lower : JsString → JsString}

/-! ### Later threads -/

/-- Identifiers are not used again: an old conversation keeps its token, an old message stays
in its conversation unless that is gone. -/
structure Threads.Later (t t' : Threads) : Prop where
  nextId_le : t.nextId ≤ t'.nextId
  conversation : ∀ c row', c < t.nextId → t'.conversations c = some row' →
    ∃ row, t.conversations c = some row ∧ row'.routingToken = row.routingToken
  message : ∀ k v', k < t.nextId → t'.messages k = some v' → ∃ v, t.messages k = some v ∧
    ∀ c row', c < t.nextId → v.conversationId = some c → t'.conversations c = some row' →
      v'.conversationId = some c

instance : Std.Refl Threads.Later where
  refl _ := ⟨le_rfl, fun _ row' _ h => ⟨row', h, rfl⟩,
    fun _ v' _ h => ⟨v', h, fun _ _ _ hc _ => hc⟩⟩

instance : IsTrans Threads Threads.Later where
  trans t t' t'' h h' :=
    { nextId_le := h.nextId_le.trans h'.nextId_le
      conversation := by
        intro c row'' hlt hrow''
        obtain ⟨row', hrow', htoken'⟩ := h'.conversation c row'' (hlt.trans_le h.nextId_le) hrow''
        obtain ⟨row, hrow, htoken⟩ := h.conversation c row' hlt hrow'
        exact ⟨row, hrow, htoken'.trans htoken⟩
      message := by
        intro k v'' hlt hv''
        obtain ⟨v', hv', hstay'⟩ := h'.message k v'' (hlt.trans_le h.nextId_le) hv''
        obtain ⟨v, hv, hstay⟩ := h.message k v' hlt hv'
        refine ⟨v, hv, fun c row'' hc hvc hrow'' => ?_⟩
        obtain ⟨row', hrow', -⟩ := h'.conversation c row'' (hc.trans_le h.nextId_le) hrow''
        exact hstay' c row'' (hc.trans_le h.nextId_le) (hstay c row' hc hvc hrow') hrow'' }

/-- An update of one conversation that keeps its token. -/
theorem Threads.later_onConversation (t : Threads) (c : Uuid)
    {f : ConversationView → ConversationView}
    (hf : ∀ row, (f row).routingToken = row.routingToken) : t.Later (t.onConversation c f) where
  nextId_le := le_rfl
  conversation := by
    intro d row' _ hrow'
    simp only [onConversation] at hrow'
    split at hrow'
    · obtain ⟨row, hrow, rfl⟩ := Option.map_eq_some_iff.mp hrow'
      exact ⟨row, hrow, hf row⟩
    · exact ⟨row', hrow', rfl⟩
  message := fun _ v' _ hv' => ⟨v', hv', fun _ _ _ hc _ => hc⟩

/-- Every event leads to later threads. -/
theorem Threads.later_apply {t : Threads} {e : ThreadEvent} (h : t.Enabled lower e) :
    t.Later (t.apply e) := by
  cases e with
  | drawn n =>
      exact ⟨h, fun _ row' _ hrow => ⟨row', hrow, rfl⟩,
        fun _ v' _ hv => ⟨v', hv, fun _ _ _ hc _ => hc⟩⟩
  | begun c row =>
      obtain ⟨rfl, -⟩ := h
      refine ⟨Nat.le_add_right _ 2, fun d row' hlt hrow' => ?_,
        fun _ v' _ hv => ⟨v', hv, fun _ _ _ hc _ => hc⟩⟩
      simp only [apply, Function.update_apply, if_neg hlt.ne] at hrow'
      exact ⟨row', hrow', rfl⟩
  | stored id v =>
      obtain ⟨rfl, -⟩ := h
      refine ⟨Nat.le_succ _, fun _ row' _ hrow => ⟨row', hrow, rfl⟩, fun k v' hlt hv' => ?_⟩
      simp only [apply, Function.update_apply, if_neg hlt.ne] at hv'
      exact ⟨v', hv', fun _ _ _ hc _ => hc⟩
  | identified id mid =>
      refine ⟨le_rfl, fun _ row' _ hrow => ⟨row', hrow, rfl⟩, fun k v' _ hv' => ?_⟩
      simp only [apply, onMessage] at hv'
      split at hv'
      · obtain ⟨v, hv, rfl⟩ := Option.map_eq_some_iff.mp hv'
        exact ⟨v, hv, fun _ _ _ hc _ => hc⟩
      · exact ⟨v', hv', fun _ _ _ hc _ => hc⟩
  | adopted p children =>
      refine ⟨le_rfl, fun _ row' _ hrow => ⟨row', hrow, rfl⟩, fun k v' _ hv' => ?_⟩
      obtain ⟨v, hv, rfl⟩ := Option.map_eq_some_iff.mp hv'
      refine ⟨v, hv, fun _ _ _ hc _ => ?_⟩
      split <;> exact hc
  | merged target sources =>
      refine ⟨le_rfl, fun d row' _ hrow' => ?_, fun k v' _ hv' => ?_⟩
      · simp only [apply] at hrow'
        split at hrow'
        · cases hrow'
        · split at hrow'
          · obtain ⟨row, hrow, rfl⟩ := Option.map_eq_some_iff.mp hrow'
            exact ⟨row, hrow, rfl⟩
          · exact ⟨row', hrow', rfl⟩
      · obtain ⟨v, hv, rfl⟩ := Option.map_eq_some_iff.mp hv'
        refine ⟨v, hv, fun c row' _ hc hrow' => ?_⟩
        -- a conversation that still exists is no source
        simp only [apply] at hrow'
        split at hrow'
        · cases hrow'
        next hnot => rwa [ThreadView.move_of_notMem hc hnot]
  | promoted c base => exact t.later_onConversation c fun _ => rfl
  | reopened c participant base => exact t.later_onConversation c fun _ => rfl
  | assigned c topic => exact t.later_onConversation c fun _ => rfl
  | turned c state => exact t.later_onConversation c fun _ => rfl
  | overridden c state => exact t.later_onConversation c fun _ => rfl
  | deleted c =>
      refine ⟨le_rfl, fun d row' _ hrow' => ?_, fun k v' _ hv' => ?_⟩
      · simp only [apply] at hrow'
        split at hrow'
        · cases hrow'
        · exact ⟨row', hrow', rfl⟩
      · simp only [apply] at hv'
        split at hv'
        · cases hv'
        · obtain ⟨v, hv, rfl⟩ := Option.map_eq_some_iff.mp hv'
          exact ⟨v, hv, fun _ _ _ hc _ => hc⟩

theorem Threads.later_of_explains {P : ThreadEvent → Prop} {t t' : Threads}
    (h : (threading lower).Explains P t t') : t.Later t' := by
  obtain ⟨es, -, htrace⟩ := h
  exact (htrace.relates (I := fun _ => True) trivial fun t e _ _ he =>
    ⟨trivial, Threads.later_apply he⟩).2

theorem Woven.later {P : ThreadEvent → Prop} {db db' : Database Digest} (h : Woven lower P db db') :
    db.threads.Later db'.threads := Threads.later_of_explains h

/-! ### Processes -/

/-- A message is in the conversation, while both exist. -/
structure Threads.Places (t : Threads) (c id : Uuid) : Prop where
  conversation_lt : c < t.nextId
  message_lt : id < t.nextId
  placed : ∀ v row, t.messages id = some v → t.conversations c = some row →
    v.conversationId = some c

/-- A conversation has the token that was read, while it exists. -/
structure Threads.Names (t : Threads) (conversation : EmailConversation) : Prop where
  conversation_lt : conversation.id < t.nextId
  token : ∀ row, t.conversations conversation.id = some row →
    row.routingToken = conversation.routingToken

theorem Threads.Places.later {t t' : Threads} {c id : Uuid} (h : t.Places c id) (hl : t.Later t') :
    t'.Places c id where
  conversation_lt := h.conversation_lt.trans_le hl.nextId_le
  message_lt := h.message_lt.trans_le hl.nextId_le
  placed := by
    intro v' row' hv' hrow'
    obtain ⟨v, hv, hstay⟩ := hl.message id v' h.message_lt hv'
    obtain ⟨row, hrow, -⟩ := hl.conversation c row' h.conversation_lt hrow'
    exact hstay c row' h.conversation_lt (h.placed v row hv hrow) hrow'

theorem Threads.Names.later {t t' : Threads} {c : EmailConversation} (h : t.Names c)
    (hl : t.Later t') : t'.Names c where
  conversation_lt := h.conversation_lt.trans_le hl.nextId_le
  token := by
    intro row' hrow'
    obtain ⟨row, hrow, htoken⟩ := hl.conversation c.id row' h.conversation_lt hrow'
    exact htoken.trans (h.token row hrow)

/-- The conversation of a reply and the message that it answers. -/
def SendHandler.answered (h : SendHandler Digest) (id : Uuid) : Option (Uuid × Uuid) :=
  match h.request with
  | .reply _ c _ => some (c, id)
  | _ => none

/-- The conversation and the parent that a reply carries. -/
def Proc.answers : Proc Digest → Option (Uuid × Uuid)
  | .send h =>
      match h.phase with
      | .ensureMessageId parent => h.answered parent.id
      | .retrieveMessageId parent _ => h.answered parent.id
      | .transact (some parent) => h.answered parent.id
      | _ => none
  | _ => none

/-- The decision that a worker of the attachment lane is about to write. -/
def Proc.decides : Proc Digest → Option EntryDecision
  | .entryDrain (.working _ _ _ (.ending decision)) => some decision
  | _ => none

/-- The key of the object of an upload. -/
def Proc.uploads : Proc Digest → Option Uuid
  | .upload h => some h.storageKey.id
  | _ => none

/-- Nothing has to be shown of what a process does not carry. -/
theorem holds_of_none {α : Type} {o : Option α} {P : α → Prop} (h : o = none) (a : α)
    (ha : o = some a) : P a := by
  rw [h] at ha
  cases ha

/-- What a process carries from one transaction to the next is still true. -/
structure Proc.Bound (p : Proc Digest) (t : Threads) : Prop where
  answers : ∀ c id, p.answers = some (c, id) → t.Places c id
  reopens : ∀ conversation, p.reopens = some conversation → t.Names conversation
  decides : ∀ decision, p.decides = some decision → decision.Sends
  uploads : ∀ id, p.uploads = some id → id < t.nextId

theorem Proc.Bound.later {p : Proc Digest} {t t' : Threads} (h : p.Bound t) (hl : t.Later t') :
    p.Bound t' where
  answers := fun c id ha => (h.answers c id ha).later hl
  reopens := fun conversation hr => (h.reopens conversation hr).later hl
  decides := h.decides
  uploads := fun id hu => (h.uploads id hu).trans_le hl.nextId_le

/-- The answers of a process that has none. -/
theorem Proc.answers_of_none {p : Proc Digest} {t : Threads} (h : p.answers = none) (c id : Uuid)
    (ha : p.answers = some (c, id)) : t.Places c id :=
  @holds_of_none (Uuid × Uuid) p.answers (fun answer => t.Places answer.1 answer.2) h (c, id) ha

/-- A process that carries nothing. -/
abbrev Proc.Free (p : Proc Digest) : Prop :=
  p.answers = none ∧ p.reopens = none ∧ p.decides = none ∧ p.uploads = none

theorem Proc.Free.bound {p : Proc Digest} (h : p.Free) (t : Threads) : p.Bound t where
  answers := fun c id ha => by rw [h.1] at ha; cases ha
  reopens := fun conversation hr => by rw [h.2.1] at hr; cases hr
  decides := fun decision hd => by rw [h.2.2.1] at hd; cases hd
  uploads := fun id hu => by rw [h.2.2.2] at hu; cases hu

/-- The message whose Message-ID the next step of the process records. -/
def Proc.records : Proc Digest → Option Uuid
  | .send h =>
      match h.phase with
      | .deliver _ (.hydrate m) => some m.id
      | .retrieveMessageId _ stored => some stored.id
      | _ => none
  | .receive h =>
      match h.phase with
      | .hydrate hydration _ => hydration.pending.head?.map EmailMessage.id
      | _ => none
  | _ => none

/-! ### Steps -/

/-- The Reply-To base that the request of a stepping send handler asks for. -/
def System.bases (s : System Digest) (a : Action Digest) : Set JsString :=
  {b | ∃ pid c h, a = .run pid c ∧ s.Runs pid (.send h) ∧ b ∈ h.request.bases}

/-- What one step does to the threads. -/
inductive Threading (rt : Runtime Digest) (s : System Digest) (a : Action Digest)
    (s' : System Digest) :
    Prop
  | plain (events : Lawful rt.toLowerCase (ThreadEvent.IsPlain (s.bases a)) s.db s'.db)
  | projected (pid : ℕ) (c : Choice Digest) (h : ReceiveHandler Digest) (email : ResendEmail)
      (m : EmailMessage Digest) (action : a = .run pid c) (runs : s.Runs pid (.receive h))
      (phase : h.phase = .project email) (commits : c.fails = false)
      (projection : projectInboundEmail rt s.config c.scan s.now h.event email
        (s.config.resendReplyTo.getD []) s.db = .ok (m, s'.db))
  | recorded (pid : ℕ) (c : Choice Digest) (p : Proc Digest) (id : Uuid) (mid : JsString)
      (createdAt : Time) (m : EmailMessage Digest) (action : a = .run pid c) (runs : s.Runs pid p)
      (records : p.records = some id) (retrieved : c.retrieved = some (mid, createdAt))
      (recording : recordOutboundInternetMessageId rt s.config c.scan s.now id mid createdAt s.db =
        .ok (m, s'.db))
  | reopened (pid : ℕ) (c : Choice Digest) (h : SendHandler Digest)
      (conversation : EmailConversation)
      (participant base : JsString) (action : a = .run pid c) (runs : s.Runs pid (.send h))
      (phase : h.phase = .reopenTransact conversation)
      (enabled : s.db.threads.Enabled rt.toLowerCase (.reopened conversation.id participant base))
      (requested : base ∈ s.bases a)
      (events : (threading rt.toLowerCase).Explains (ThreadEvent.IsPlain (s.bases a))
        (s.db.threads.apply (.reopened conversation.id participant base)) s'.db.threads)
      (keeps : Keeps s.db s'.db)
  | assigned (id : Uuid) (topic : JsString × JsString) (title : JsString)
      (action : a = .operator (.assignTopic id topic title))
      (events : Lawful rt.toLowerCase ThreadEvent.IsAssignment s.db s'.db)
  | overridden (id : Uuid) (state : ConversationState)
      (action : a = .operator (.setConversationState id state))
      (events : Lawful rt.toLowerCase ThreadEvent.IsOverride s.db s'.db)
  | deleted (id : Uuid) (action : a = .operator (.deleteConversation id))
      (events : Lawful rt.toLowerCase (ThreadEvent.IsDeletion id) s.db s'.db)

/-- What one step does to the threads, and what its process carries then. -/
structure ThreadStep (rt : Runtime Digest) (s : System Digest) (a : Action Digest)
    (s' : System Digest) : Prop where
  threading : Threading rt s a s'
  binds : ∀ q p, s'.Runs q p → s.Runs q p ∨ p.Bound s'.db.threads

theorem Threading.later {rt : Runtime Digest} {s s' : System Digest} {a : Action Digest}
    (h : Threading rt s a s') : s.db.threads.Later s'.db.threads := by
  cases h with
  | plain events => exact events.woven.later
  | projected pid c h email m action runs phase commits projection =>
      exact (woven_projectInboundEmail _ _ _ _ _ _ _ projection).later
  | recorded pid c p id mid createdAt m action runs records retrieved recording =>
      obtain ⟨_, _, _, hrecorded⟩ := recordOutboundInternetMessageId_threads recording
      exact Threads.later_of_explains hrecorded.explained
  | reopened pid c h conversation participant base action runs phase enabled requested events =>
      exact IsTrans.trans _ _ _ (Threads.later_apply enabled) (Threads.later_of_explains events)
  | assigned id topic title action events => exact events.woven.later
  | overridden id state action events => exact events.woven.later
  | deleted id action events => exact events.woven.later

theorem Threading.keeps {rt : Runtime Digest} {s s' : System Digest} {a : Action Digest}
    (h : Threading rt s a s') : Keeps s.db s'.db := by
  cases h with
  | plain events => exact events.keeps
  | projected pid c h email m action runs phase commits projection =>
      exact keeps_projectInboundEmail _ _ _ _ _ _ _ projection
  | recorded pid c p id mid createdAt m action runs records retrieved recording =>
      exact keeps_recordOutboundInternetMessageId _ _ _ _ _ _ _ recording
  | reopened pid c h conversation participant base action runs phase enabled requested events
      keeps => exact keeps
  | assigned id topic title action events => exact events.keeps
  | overridden id state action events => exact events.keeps
  | deleted id action events => exact events.keeps

section
variable {rt : Runtime Digest} {s s' : System Digest} {a : Action Digest}

/-- A process continues after a step. -/
theorem binds_become {t : System Digest} (hprocs : t.procs = s.procs) (pid : ℕ) {p : Proc Digest}
    (hb : p.Bound t.db.threads) :
    ∀ q p', (t.become pid p).Runs q p' → s.Runs q p' ∨ p'.Bound (t.become pid p).db.threads := by
  intro q p' hq
  rcases System.runs_become.mp hq with ⟨-, rfl⟩ | ⟨-, hq⟩
  · exact .inr hb
  · rw [System.Runs, hprocs] at hq
    exact .inl hq

/-- What a send handler asks for is asked for by its step. -/
theorem bases_subset {pid : ℕ} {c : Choice Digest} {h : SendHandler Digest}
    (hruns : s.Runs pid (.send h)) :
    h.request.bases ⊆ s.bases (.run pid c) := fun _ hb => ⟨pid, c, h, rfl, hruns, hb⟩

namespace ThreadStep

/-- A step of plain events after which the process continues. -/
theorem of_plain {t : System Digest}
    (hp : Lawful rt.toLowerCase (ThreadEvent.IsPlain (s.bases a)) s.db t.db)
    (hprocs : t.procs = s.procs) (pid : ℕ) {p : Proc Digest} (hb : p.Bound t.db.threads) :
    ThreadStep rt s a (t.become pid p) := ⟨.plain hp, binds_become hprocs pid hb⟩

/-- A step of plain events after which no process is new. -/
theorem of_retired {t : System Digest}
    (hp : Lawful rt.toLowerCase (ThreadEvent.IsPlain (s.bases a)) s.db t.db)
    (hretires : ∀ q p, t.Runs q p → s.Runs q p) : ThreadStep rt s a t :=
  ⟨.plain hp, fun q p hq => .inl (hretires q p hq)⟩

theorem of_finish {t : System Digest}
    (hp : Lawful rt.toLowerCase (ThreadEvent.IsPlain (s.bases a)) s.db t.db)
    (hprocs : t.procs = s.procs) (pid : ℕ) : ThreadStep rt s a (t.finish pid) := by
  refine of_retired hp fun q p hq => ?_
  have hq := (System.runs_finish.mp hq).2
  rwa [System.Runs, hprocs] at hq

theorem of_become (pid : ℕ) {p : Proc Digest} (hb : p.Bound s.db.threads) :
    ThreadStep rt s a (s.become pid p) := of_plain (Std.Refl.refl s.db) rfl pid hb

theorem of_free (pid : ℕ) {p : Proc Digest} (hp : p.Free) : ThreadStep rt s a (s.become pid p) :=
  of_become pid (hp.bound _)

end ThreadStep

/-- A plain transaction commits or changes nothing. -/
theorem lawful_transact {α : Type} {P : ThreadEvent → Prop} {x : Transaction Digest α}
    (hx : Preserves (Lawful lower P) x) (s : System Digest) :
    Lawful lower P s.db (s.transact x).2.db := by
  rcases s.transact_cases x with ⟨r, db', h, heq⟩ | ⟨e, heq⟩
  · rw [heq]
    exact hx h
  · rw [heq]
    exact Std.Refl.refl _

/-- A minor transaction after which the process carries nothing. -/
theorem ThreadStep.of_transact {α : Type} {x : Transaction Digest α} (hx : Minor rt.toLowerCase x)
    (pid : ℕ) {p : Proc Digest} (hp : p.Free) : ThreadStep rt s a ((s.transact x).2.become pid p) :=
  .of_plain (lawful_transact (Minor.isPlain hx) s) rfl pid (hp.bound _)

/-- A recording of a Message-ID after which the process carries what it carried, or less. -/
theorem ThreadStep.of_recorded {pid : ℕ} {c : Choice Digest} {p : Proc Digest} {id : Uuid}
    {mid : JsString} {createdAt : Time} {m : EmailMessage Digest} {db' : Database Digest}
    (hruns : s.Runs pid p) (hrecords : p.records = some id)
    (hretrieved : c.retrieved = some (mid, createdAt))
    (hx : recordOutboundInternetMessageId rt s.config c.scan s.now id mid createdAt s.db =
      .ok (m, db')) {p' : Proc Digest}
    (hb : s.db.threads.Later db'.threads → p'.Bound db'.threads) :
    ThreadStep rt s (.run pid c) ({ s with db := db' }.become pid p') := by
  have hthreading : Threading rt s (.run pid c) { s with db := db' } :=
    .recorded pid c p id mid createdAt m rfl hruns hrecords hretrieved hx
  refine ⟨.recorded pid c p id mid createdAt m rfl hruns hrecords hretrieved hx, ?_⟩
  exact binds_become (t := { s with db := db' }) rfl pid (hb hthreading.later)

/-- Drawing an identifier. -/
theorem lawful_draw {B : Set JsString} (db : Database Digest) :
    Lawful lower (ThreadEvent.IsPlain B) db { db with nextId := db.nextId + 1 } :=
  Minor.isPlain minor_freshId (freshId_eq_ok.mpr ⟨rfl, rfl⟩)

/-- An inbound message learns its Message-ID. -/
theorem identifyInbound_threads {B : Set JsString} {id : Uuid} {mid : JsString}
    {db db' : Database Digest} {m : EmailMessage Digest}
    (h : updateMessage id (fun m => { m with internetMessageId := some mid }) (fun _ => rfl) db =
      .ok (m, db')) : Lawful lower (ThreadEvent.IsPlain B) db db' := by
  refine ⟨?_, keeps_updateMessage h⟩
  obtain ⟨m₀, hm₀, ⟨_, hchecked⟩, -, heq⟩ := updateMessage_eq_ok.mp h
  have hcheck := checkMessage_eq_ok.mp hchecked
  have hunused : db.threads.Unused id (some mid) := by
    refine unused_of_check fun m hm hne hsome => not_takenBy.mp hcheck.2.1 m hm ?_ rfl
    rw [Table.key_of_get? hm₀]
    exact hne
  have hplaced : m₀.conversationId.isSome := by
    have hshape := hcheck.2.2.2.2.2.1
    unfold EmailMessage.kindShape at hshape
    dsimp only at hshape
    split at hshape
    · exact hshape
    · simp at hshape
  refine .single (e := .identified id mid) trivial ⟨⟨m₀.threadView, ?_, hplaced⟩, hunused⟩ ?_
  · simp [Database.threads, hm₀]
  · rw [heq]
    exact threads_updateMessage fun _ => rfl

namespace SendHandler

variable {h : SendHandler Digest} {pid : ℕ} {c : Choice Digest}

theorem respond_free (h : SendHandler Digest) (r : SendResponse Digest) : (h.respond r).Free :=
  ⟨rfl, rfl, rfl, rfl⟩

theorem afterThrow_free (h : SendHandler Digest) (d : Delivery) : (h.afterThrow d).Free :=
  ⟨rfl, rfl, rfl, rfl⟩

theorem deliver_free (h : SendHandler Digest) (d : Delivery) (phase : DeliveryPhase Digest) :
    (h.goto (.deliver d phase)).Free := ⟨rfl, rfl, rfl, rfl⟩

theorem afterRace_free (h : SendHandler Digest) : h.afterRace.Free := by
  unfold afterRace
  split
  · exact ⟨rfl, rfl, rfl, rfl⟩
  · exact respond_free _ _
  · exact respond_free _ _

theorem answerStored_free [DecidableEq Digest] (h : SendHandler Digest) (m : EmailMessage Digest)
    (conflict : JsString) :
    (h.answerStored rt m conflict).Free := by
  unfold answerStored
  split
  · split
    · exact respond_free _ _
    · exact ⟨rfl, rfl, rfl, rfl⟩
  · exact respond_free _ _

theorem afterTransaction_free (h : SendHandler Digest) (createdAt : Time) (r : Except TxError Uuid)
    (db : Database Digest) {onUnique : SendPhase Digest} (hunique : (h.goto onUnique).Free) :
    (h.afterTransaction createdAt r db onUnique).Free := by
  unfold afterTransaction
  split
  · split
    · split
      · exact ⟨rfl, rfl, rfl, rfl⟩
      · split <;> exact respond_free _ _
    · exact ⟨rfl, rfl, rfl, rfl⟩
  · exact respond_free _ _
  · exact respond_free _ _
  · exact hunique
  · exact respond_free _ _

/-- The parent of a reply is in its conversation. -/
theorem answered_eq {c id parentId : Uuid} (ha : h.answered parentId = some (c, id)) :
    id = parentId ∧ ∃ queued value, h.request = .reply queued c value := by
  unfold answered at ha
  split at ha
  next queued d value hrequest =>
    simp only [Option.some.injEq, Prod.mk.injEq] at ha
    exact ⟨ha.2.symm, queued, value, ha.1 ▸ hrequest⟩
  · cases ha

theorem withParent_bound {t : Threads} {parent : EmailMessage Digest}
    (hplaces : ∀ c id, h.answered parent.id = some (c, id) → t.Places c id) (mid : JsString) :
    (h.withParent parent mid).Bound t := by
  unfold withParent
  split
  · exact (respond_free _ _).bound t
  · exact ⟨hplaces, holds_of_none rfl, holds_of_none rfl, holds_of_none rfl⟩

theorem replyParent_places {db : Database Digest} (hs : db.Sound) {conversationId : Uuid}
    {requested : Option RequestedId} {conversation : EmailConversation}
    {parent : EmailMessage Digest} (hc : db.conversations.get? conversationId = some conversation)
    (hp : replyParent db conversationId requested = some parent) :
    db.threads.Places conversationId parent.id := by
  have hparent : parent ∈ db.messages ∧ parent.conversationId = some conversationId := by
    unfold replyParent at hp
    split at hp
    · obtain ⟨hget, hin⟩ := Option.filter_eq_some_iff.mp hp
      exact ⟨Table.mem_of_get? hget, by simpa using hin⟩
    · have hmem := Table.mem_selectSorted.mp (List.mem_of_head? hp)
      simp only [Bool.and_eq_true, beq_iff_eq] at hmem
      exact ⟨hmem.1, hmem.2.1⟩
  refine ⟨?_, hs.messageId_lt _ hparent.1, fun v row hv _ => ?_⟩
  · exact Table.key_of_get? hc ▸ hs.conversationId_lt _ (Table.mem_of_get? hc)
  · rw [EmailMessage.threadView_of_get? (Table.mem_iff_get?.mp hparent.1)] at hv
    cases hv
    exact hparent.2

/-! ### The request -/

theorem loadParent_thread (hs : s.db.Sound) (hstep : h.loadParent s pid = some s') :
    ThreadStep rt s a s' := by
  unfold loadParent at hstep
  split at hstep
  next queued conversationId value hrequest =>
    split at hstep
    · cases hstep
      exact .of_free pid (respond_free _ _)
    next conversation hconversation =>
      split at hstep
      · cases hstep
        exact .of_free pid (respond_free _ _)
      · split at hstep
        · cases hstep
          exact .of_free pid (respond_free _ _)
        next parent hparent =>
          cases hstep
          refine .of_become pid ⟨fun d k ha => ?_, holds_of_none rfl, holds_of_none rfl,
            holds_of_none rfl⟩
          obtain ⟨rfl, queued', value', hrequest'⟩ := answered_eq (h := h) ha
          rw [hrequest] at hrequest'
          cases hrequest'
          exact replyParent_places hs hconversation hparent
  · cases hstep

theorem ensureMessageId_thread {parent : EmailMessage Digest}
    (hphase : h.phase = .ensureMessageId parent) (hb : (Proc.send h).Bound s.db.threads) :
    ThreadStep rt s a (h.ensureMessageId s pid parent) := by
  have hplaces : ∀ c id, h.answered parent.id = some (c, id) → s.db.threads.Places c id :=
    fun d k ha => hb.answers d k (by simpa [Proc.answers, hphase] using ha)
  unfold ensureMessageId
  split
  · exact .of_free pid (respond_free _ _)
  · split
    · exact .of_become pid (withParent_bound hplaces _)
    · exact .of_free pid (respond_free _ _)
    · exact .of_become pid ⟨hplaces, holds_of_none rfl, holds_of_none rfl, holds_of_none rfl⟩

theorem retrieveMessageId_thread {parent stored : EmailMessage Digest}
    (hruns : s.Runs pid (.send h)) (hphase : h.phase = .retrieveMessageId parent stored)
    (hb : (Proc.send h).Bound s.db.threads) :
    ThreadStep rt s (.run pid c) (h.retrieveMessageId rt s pid parent stored c) := by
  have hplaces : ∀ c id, h.answered parent.id = some (c, id) → s.db.threads.Places c id :=
    fun d k ha => hb.answers d k (by simpa [Proc.answers, hphase] using ha)
  unfold retrieveMessageId
  split
  · exact .of_free pid (respond_free _ _)
  next mid createdAt hretrieved =>
    by_cases hdirection : stored.direction = .outbound
    · simp only [hdirection, if_true]
      rcases s.transact_cases
        (recordOutboundInternetMessageId rt s.config c.scan s.now stored.id mid createdAt)
        with ⟨m, db', hx, heq⟩ | ⟨e, heq⟩
      · simp only [heq]
        exact .of_recorded hruns (by simp [Proc.records, hphase]) hretrieved hx fun hl =>
          withParent_bound (fun d k ha => (hplaces d k ha).later hl) _
      · simp only [heq]
        exact .of_free pid (respond_free _ _)
    · simp only [hdirection, if_false]
      rcases s.transact_cases
        (updateMessage stored.id fun m => { m with internetMessageId := some mid })
        with ⟨m, db', hx, heq⟩ | ⟨e, heq⟩
      · simp only [heq]
        have hplain : Lawful rt.toLowerCase (ThreadEvent.IsPlain (s.bases (.run pid c))) s.db db' :=
          identifyInbound_threads hx
        exact .of_plain (t := { s with db := db' }) hplain rfl pid
          (withParent_bound (fun d k ha => (hplaces d k ha).later hplain.woven.later) _)
      · simp only [heq]
        exact .of_free pid (respond_free _ _)

theorem storeMessage_threads {ctx : SendContext Digest} {parent : Option ReplyParent}
    {db db' : Database Digest} {id : Uuid}
    (hparent : ∀ queued c value p, ctx.request = .reply queued c value → parent = some p →
      db.threads.Places c p.id) (hx : storeMessage ctx parent db = .ok (id, db')) :
    Lawful ctx.rt.toLowerCase (ThreadEvent.IsPlain ctx.request.bases) db db' := by
  rcases hr : ctx.request with ⟨queued, value⟩ | ⟨queued, conversationId, value⟩ | ⟨queued, value⟩
  · unfold storeMessage at hx
    rw [hr] at hx
    exact openConversation_threads hx
  · unfold storeMessage at hx
    rw [hr] at hx
    cases parent with
    | some parent =>
        refine createReply_threads (fun m row hm hrow => ?_) hx
        refine (hparent queued conversationId value parent hr rfl).placed m.threadView
          row.view ?_ ?_
        · simp [Database.threads, hm]
        · simp [Database.threads, hrow]
    | none => exact (throw_eq_ok.mp hx).elim
  · unfold storeMessage at hx
    rw [hr] at hx
    exact createDirect_threads hx

theorem transact_thread {parent : Option ReplyParent} (hruns : s.Runs pid (.send h))
    (hphase : h.phase = .transact parent) (hb : (Proc.send h).Bound s.db.threads) :
    ThreadStep rt s (.run pid c) ((s.transact (storeMessage (h.context rt s c) parent)).2.become pid
      (h.afterTransaction (h.context rt s c).createdAt
        (s.transact (storeMessage (h.context rt s c) parent)).1
        (s.transact (storeMessage (h.context rt s c) parent)).2.db .raced)) := by
  have hfree := fun r db => h.afterTransaction_free (h.context rt s c).createdAt r db
    (show (h.goto .raced).Free from ⟨rfl, rfl, rfl, rfl⟩)
  rcases s.transact_cases (storeMessage (h.context rt s c) parent) with
    ⟨id, db', hx, heq⟩ | ⟨e, heq⟩
  · rw [heq]
    have hplain : Lawful rt.toLowerCase (ThreadEvent.IsPlain (s.bases (.run pid c))) s.db db' := by
      refine Lawful.mono (storeMessage_threads (fun queued d value p hr hp => ?_) hx) fun e he =>
        he.subset (bases_subset hruns)
      subst hp
      have hrequest : h.request = .reply queued d value := hr
      exact hb.answers d p.id (by simp [Proc.answers, hphase, answered, hrequest])
    exact .of_plain (t := { s with db := db' }) hplain rfl pid ((hfree _ _).bound _)
  · rw [heq]
    exact .of_free pid (hfree _ _)

theorem reopenTransact_thread (hreceived : Received s) (hruns : s.Runs pid (.send h))
    {conversation : EmailConversation} (hphase : h.phase = .reopenTransact conversation)
    (hb : (Proc.send h).Bound s.db.threads)
    (hstep : h.reopenTransact rt s pid conversation c = some s') :
    ThreadStep rt s (.run pid c) s' := by
  have hfree := fun r db => h.afterTransaction_free (h.context rt s c).createdAt r db
    (show (h.goto .racedReopen).Free from ⟨rfl, rfl, rfl, rfl⟩)
  unfold reopenTransact at hstep
  split at hstep
  next value hrequest =>
    dsimp only at hstep
    rcases s.transact_cases (reopenConversation (h.context rt s c) value conversation) with
      ⟨stored, db', hx, heq⟩ | ⟨e, heq⟩
    · rw [heq] at hstep
      cases stored with
      | none =>
          cases hstep
          rw [reopenConversation_none hx]
          exact .of_free pid (respond_free _ _)
      | some id =>
          cases hstep
          have hnames := hb.reopens conversation (by simp [Proc.reopens, hphase])
          obtain ⟨henabled, hevents, hkeeps⟩ := reopenConversation_threads
            (fun row hrow => hnames.token row.view (by simp [Database.threads, hrow]))
            (fun m hm hin => hreceived.state hm hin) hx
          have hbase : value.message.replyTo.address ∈ s.bases (.run pid c) :=
            bases_subset hruns (by rw [hrequest]; rfl)
          have hplain := hevents.mono fun e he => he.subset (Set.singleton_subset_iff.mpr hbase)
          exact ⟨.reopened pid c h conversation _ _ rfl hruns hphase henabled hbase hplain hkeeps,
            binds_become (t := { s with db := db' }) rfl pid ((hfree _ _).bound _)⟩
    · rw [heq] at hstep
      cases hstep
      exact .of_free pid (hfree _ _)
  · cases hstep

/-! ### Delivery -/

theorem recover_thread (id : Uuid) : ThreadStep rt s a (h.recover s pid id) := by
  unfold recover
  split
  · exact .of_free pid (respond_free _ _)
  · split
    · exact .of_free pid (respond_free _ _)
    · split
      · exact .of_free pid ⟨rfl, rfl, rfl, rfl⟩
      · exact .of_free pid (deliver_free _ _ _)

/-- The end of the transaction of a delivery. -/
theorem settle_thread {t : System Digest} (hdb : t.db = s.db) (hprocs : t.procs = s.procs)
    (d : Delivery) (result : Except SendError JsString) :
    ThreadStep rt s a (h.settle t pid d result) := by
  cases result with
  | ok id =>
      rcases t.transact_cases (recordSent t.config d.messageId id) with ⟨m, db', hx, heq⟩ | ⟨e, heq⟩
      · simp only [settle, heq]
        rw [hdb] at hx
        exact .of_plain (t := { t with db := db' })
          (Minor.isPlain (minor_recordSent _ _ _) hx) hprocs pid
          ((deliver_free _ _ _).bound _)
      · simp only [settle, heq]
        exact .of_plain (t := t) (by rw [hdb]; exact Std.Refl.refl s.db) hprocs pid
          ((afterThrow_free _ _).bound _)
  | error error =>
      have hminor :=
        lawful_transact (minor_recordSendError d.messageId error : Minor rt.toLowerCase _) t
      rw [hdb] at hminor
      exact .of_plain (hminor.mono fun _ => ThreadEvent.IsMinor.isPlain) hprocs pid
        ((afterThrow_free _ _).bound _)

theorem beginDelivery_thread {d : Delivery} {attachments : List SendEmailAttachmentInput}
    (hstep : h.beginDelivery s pid d attachments = some s') : ThreadStep rt s a s' := by
  unfold beginDelivery at hstep
  split at hstep
  · cases hstep
  · split at hstep
    · cases hstep
      exact .of_free pid (afterThrow_free _ _)
    · split at hstep
      · cases hstep
        exact .of_free pid (deliver_free _ _ _)
      · split at hstep
        · cases hstep
          exact settle_thread rfl rfl _ _
        · split at hstep
          · cases hstep
            apply ThreadStep.of_plain
            exacts [lawful_draw _, rfl, (deliver_free _ _ _).bound _]
          · cases hstep
            exact settle_thread rfl rfl _ _

theorem hydrateSent_thread (hruns : s.Runs pid (.send h)) {d : Delivery} {m : EmailMessage Digest}
    (hphase : h.phase = .deliver d (.hydrate m)) :
    ThreadStep rt s (.run pid c) (h.hydrateSent rt s pid d m c) := by
  unfold hydrateSent
  split
  · exact .of_free pid (respond_free _ _)
  · split
    · exact .of_free pid (respond_free _ _)
    next mid createdAt hretrieved =>
      rcases s.transact_cases
        (recordOutboundInternetMessageId rt s.config c.scan s.now m.id mid createdAt)
        with ⟨r, db', hx, heq⟩ | ⟨e, heq⟩
      · simp only [heq]
        exact .of_recorded hruns (by simp [Proc.records, hphase]) hretrieved hx fun _ =>
          (respond_free _ _).bound _
      · simp only [heq]
        exact .of_retired (Std.Refl.refl s.db) fun _ _ hp => hp

theorem deliver_thread (hruns : s.Runs pid (.send h)) {d : Delivery} {phase : DeliveryPhase Digest}
    (hphase : h.phase = .deliver d phase) (hstep : h.deliver rt s pid d c phase = some s') :
    ThreadStep rt s (.run pid c) s' := by
  cases phase with
  | prepare =>
      simp only [deliver] at hstep
      split at hstep
      · cases hstep
        exact .of_free pid (afterThrow_free _ _)
      · cases hstep
        exact .of_free pid (deliver_free _ _ _)
  | lock attachments =>
      simp only [deliver] at hstep
      split at hstep
      · cases hstep
        exact .of_free pid (afterThrow_free _ _)
      · exact beginDelivery_thread hstep
  | calling m callId =>
      simp only [deliver] at hstep
      split at hstep
      · cases hstep
        exact .of_free pid (afterThrow_free _ _)
      · split at hstep
        · cases hstep
        · cases hstep
          apply settle_thread
          exacts [rfl, rfl]
  | hydrate m =>
      cases hstep
      exact hydrateSent_thread hruns hphase

theorem reload_thread (id : Uuid) (mode : ReloadMode) :
    ThreadStep rt s a (h.reload s pid id mode) := by
  unfold reload
  split
  · exact .of_free pid (respond_free _ _)
  · cases mode <;> exact .of_free pid (respond_free _ _)

theorem step_thread [DecidableEq Digest] (hs : s.db.Sound) (hreceived : Received s)
    (hruns : s.Runs pid (.send h)) (hb : (Proc.send h).Bound s.db.threads)
    (hstep : h.step rt s pid c = some s') : ThreadStep rt s (.run pid c) s' := by
  unfold step at hstep
  split at hstep
  · split at hstep
    · cases hstep
      exact .of_free pid (answerStored_free _ _ _)
    · cases hstep
      exact .of_free pid ⟨rfl, rfl, rfl, rfl⟩
  · split at hstep
    · cases hstep
      refine .of_free pid ?_
      split <;> exact ⟨rfl, rfl, rfl, rfl⟩
    · cases hstep
      exact .of_free pid (respond_free _ _)
  · exact loadParent_thread hs hstep
  next hphase =>
    cases hstep
    exact ensureMessageId_thread hphase hb
  next hphase =>
    cases hstep
    exact retrieveMessageId_thread hruns hphase hb
  next hphase =>
    cases hstep
    exact transact_thread hruns hphase hb
  · cases hstep
    refine .of_free pid ?_
    unfold raced
    split
    · exact answerStored_free _ _ _
    · exact afterRace_free _
  · split at hstep
    · split at hstep
      · cases hstep
        exact .of_free pid (respond_free _ _)
      next conversation hfound =>
        cases hstep
        have hmem := List.mem_of_find?_eq_some hfound
        refine .of_become pid ⟨Proc.answers_of_none rfl, fun d hd => ?_, holds_of_none rfl,
          holds_of_none rfl⟩
        cases hd
        refine ⟨hs.conversationId_lt _ hmem, fun row hrow => ?_⟩
        simp only [Database.threads, Table.mem_iff_get?.mp hmem, Option.map_some,
          Option.some.injEq] at hrow
        rw [← hrow]
        rfl
    · cases hstep
  next hphase => exact reopenTransact_thread hreceived hruns hphase hb hstep
  · split at hstep
    · cases hstep
      exact .of_free pid (answerStored_free _ _ _)
    · cases hstep
      exact .of_free pid (respond_free _ _)
  · cases hstep
    exact recover_thread _
  · cases hstep
    exact .of_transact (minor_expirePending _) pid ⟨rfl, rfl, rfl, rfl⟩
  next hphase => exact deliver_thread hruns hphase hstep
  · cases hstep
    exact reload_thread _ _
  · cases hstep

end SendHandler

end

end ResendConversation
