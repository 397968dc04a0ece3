import ResendConversation.ProcessFrames
import ResendConversation.SendThreads
import ResendConversation.StatementRows

/-! # Allowed identities

A send transaction reads the allowlist rows of its identities in a statement of its own and
locks them with `FOR KEY SHARE`; other transactions commit between that statement and its own
commit, but none that removes a locked row.  `Locking` is the system with these locks: a send
transaction is opened, when it reads the allowlist, and later commits on the database that it
finds then.  The invariant is that the rows which an open transaction found are still there. -/

namespace ResendConversation

open Foundation Tx

variable {Digest : Type} {rt : Runtime Digest}

/-! ### The identities of a request -/

/-- The allowlist entries that the transaction of a request looks for. -/
def SendRequest.identities : SendRequest → List EmailAddressAllowlistEntry
  | .opening _ value =>
      [⟨value.message.from.address, .from⟩, ⟨value.message.replyTo.address, .replyTo⟩]
  | .reply _ _ value => [⟨value.from.address, .from⟩, ⟨value.replyTo.address, .replyTo⟩]
  | .direct _ value => [⟨value.from.address, .from⟩]

/-- The From address of the message, and the Reply-To base of its conversation, are allowed. -/
structure Database.Sends (db : Database Digest) (allowed : EmailAddressAllowlistEntry → Prop)
    (m : EmailMessage Digest) : Prop where
  sender : allowed ⟨m.fromAddress, .from⟩
  replyTo : m.kind = .conversation → ∃ c row base, m.conversationId = some c ∧
    db.conversations.get? c = some row ∧ row.replyToBaseAddress = some base ∧
      allowed ⟨base, .replyTo⟩

theorem Database.Sends.mono {db : Database Digest} {P Q : EmailAddressAllowlistEntry → Prop}
    {m : EmailMessage Digest} (h : db.Sends P m) (hPQ : ∀ e, P e → Q e) : db.Sends Q m where
  sender := hPQ _ h.sender
  replyTo := by
    intro hkind
    obtain ⟨c, row, base, hc, hrow, hbase, ha⟩ := h.replyTo hkind
    exact ⟨c, row, base, hc, hrow, hbase, hPQ _ ha⟩

/-! ### After the insertion -/

/-- Messages and Reply-To bases stay. -/
structure KeepsBases (db db' : Database Digest) : Prop where
  messages : db'.messages = db.messages
  base : ∀ c row, db.conversations.get? c = some row →
    ∃ row', db'.conversations.get? c = some row' ∧ row'.replyToBaseAddress = row.replyToBaseAddress

instance : Std.Refl (@KeepsBases Digest) where
  refl _ := ⟨rfl, fun _ row h => ⟨row, h, rfl⟩⟩

instance : IsTrans (Database Digest) KeepsBases where
  trans a b d hab hbd := by
    refine ⟨hbd.messages.trans hab.messages, fun c row hrow => ?_⟩
    obtain ⟨row', hrow', hbase'⟩ := hab.base c row hrow
    obtain ⟨row'', hrow'', hbase''⟩ := hbd.base c row' hrow'
    exact ⟨row'', hrow'', hbase''.trans hbase'⟩

theorem KeepsBases.trans {a b d : Database Digest} (h : KeepsBases a b) (h' : KeepsBases b d) :
    KeepsBases a d := IsTrans.trans _ _ _ h h'

/-- Conversations are updated in other columns. -/
theorem KeepsBases.update {db : Database Digest} {p : EmailConversation → Bool}
    {f : EmailConversation → EmailConversation} {keep : ∀ c, (f c).id = c.id}
    (hf : ∀ c, (f c).replyToBaseAddress = c.replyToBaseAddress) :
    KeepsBases db { db with conversations := db.conversations.update p f keep } := by
  refine ⟨rfl, fun c row hrow => ?_⟩
  by_cases hp : p row = true
  · exact ⟨f row, by simp [hrow, hp], hf row⟩
  · exact ⟨row, by simp [hrow, hp], rfl⟩

theorem keepsBases_claimAttachmentsForMessage (config : Config) (messageId : Uuid)
    (refs : Option (List EmailAttachmentRefInput)) :
    Preserves KeepsBases
    (claimAttachmentsForMessage config messageId refs : Transaction Digest _) := by
  intro db n db' h
  obtain ⟨table, rfl⟩ := claimAttachmentsForMessage_attachments h
  exact ⟨rfl, fun _ row hrow => ⟨row, hrow, rfl⟩⟩

theorem keepsBases_appendConversationEvent (config : Config) (input : ConversationEventInput) :
    Preserves KeepsBases (appendConversationEvent config input : Transaction Digest _) := by
  intro db r db' h
  have hok := appendConversationEvent_eq_ok h
  split at hok
  · obtain ⟨-, c, events, deliveries, -, -, -, rfl⟩ := hok
    have hupdate := @KeepsBases.update _ db (fun c => c.id == input.conversationId)
      (fun c => { c with eventSequence := c.eventSequence + 1 }) (fun _ => rfl) fun _ => rfl
    exact ⟨rfl, hupdate.base⟩
  · rw [hok.2]
    exact Std.Refl.refl _

theorem keepsBases_appendIntentEvents (ctx : SendContext Digest) (conversationId messageId : Uuid)
    (stateBefore : ConversationState) (stateChanged : Bool) :
    Preserves KeepsBases
      (appendIntentEvents ctx conversationId messageId stateBefore stateChanged) :=
  .bind (keepsBases_appendConversationEvent _ _) fun _ =>
    .ite (.bind (keepsBases_appendConversationEvent _ _) fun _ => .pure _) (.pure _)

theorem keepsBases_applyAutomaticState (id : Uuid) (state : ConversationState) (changedAt : Time) :
    Preserves KeepsBases (applyAutomaticState id state changedAt : Transaction Digest _) := by
  refine .bind ?_ fun _ => .pure _
  intro db n db' h
  rw [updateConversations_eq_ok h]
  exact .update fun _ => rfl

/-! ### The send transactions -/

/-- A transaction that found its identities in the allowlist stored one message, which is sent
with them. -/
structure StoresAllowed (request : SendRequest) (db db' : Database Digest) : Prop where
  allowed : ∀ e ∈ request.identities, e ∈ db.allowlist
  stored : ∃ m, (∀ k, db'.messages.get? k = if m.id = k then some m else db.messages.get? k) ∧
    db'.Sends (· ∈ request.identities) m

theorem isEmailAddressAllowed_iff {db : Database Digest} {address : JsString}
    {role : EmailAddressRole} :
    isEmailAddressAllowed db address role = true ↔ ⟨address, role⟩ ∈ db.allowlist :=
  List.contains_iff_mem

/-- What the insertion stored stays through the rest of the transaction. -/
theorem OutboundCreated.sends {ctx : SendContext Digest} {row : Uuid → EmailMessage Digest}
    {db₁ db₂ db' : Database Digest} (h : OutboundCreated ctx row db₁ db₂)
    (hid : ∀ id, (row id).id = id) (after : db'.messages = db₂.messages) (k : Uuid) :
    db'.messages.get? k =
      if (row db₁.nextId).id = k then some (row db₁.nextId) else db₁.messages.get? k := by
  rw [after, h.get?, hid]

theorem openConversation_allowed {ctx : SendContext Digest} {queued : Bool}
    {value : CreateConversationV2Input} (hrequest : ctx.request = .opening queued value)
    {db db' : Database Digest} {id : Uuid} (h : openConversation ctx value db = .ok (id, db')) :
    StoresAllowed ctx.request db db' := by
  simp only [openConversation, bind_eq_ok, lockAllowedEmailIdentities, get_eq_ok, pure_eq_ok,
    ensure_eq_ok, freshId_eq_ok, orThrow_eq_ok] at h
  obtain ⟨_, _, ⟨_, _, ⟨rfl, rfl⟩, rfl, rfl⟩, _, _, ⟨hallowed, rfl⟩, _, _, ⟨rfl, rfl⟩, _,
      _, ⟨rfl, rfl⟩,
    replyTo, _, ⟨-, rfl⟩, _, _, hconversation, id, db₂, hcreate, _, db₃, hclaim, _, db₄,
      hcreated, _, db₅,
    hintended, rfl, rfl⟩ := h
  obtain ⟨table, ht, rfl⟩ := createConversation_eq_ok hconversation
  obtain ⟨-, hc⟩ := createOutbound_eq_ok (fun _ => rfl) (fun _ => rfl) hcreate
  have hafter := (keepsBases_claimAttachmentsForMessage _ _ _ hclaim).trans
    ((keepsBases_appendConversationEvent _ _ hcreated).trans
      (keepsBases_appendConversationEvent _ _ hintended))
  rw [Bool.and_eq_true, isEmailAddressAllowed_iff, isEmailAddressAllowed_iff] at hallowed
  have hbegun := (congrArg (Table.get? · db.nextId) hc.conversations).trans
    ((Table.get?_of_insert? ht db.nextId).trans (if_pos rfl))
  obtain ⟨row, hrow, hbase⟩ := hafter.base _ _ hbegun
  rw [hrequest]
  refine ⟨by simpa [SendRequest.identities] using hallowed, _,
    hc.sends (fun _ => rfl) hafter.messages, ?_, ?_⟩
  · simp [SendRequest.identities, messageCreateData, outboundMessage]
  · exact fun _ => ⟨db.nextId, row, _, rfl, hrow, hbase, by simp [SendRequest.identities]⟩

theorem reopenConversation_allowed {ctx : SendContext Digest} {queued : Bool}
    {value : CreateConversationV2Input} (hrequest : ctx.request = .opening queued value)
    {conversation : EmailConversation} {db db' : Database Digest} {id : Uuid}
    (h : reopenConversation ctx value conversation db = .ok (some id, db')) :
    StoresAllowed ctx.request db db' := by
  simp only [reopenConversation, bind_eq_ok, lockAllowedEmailIdentities, get_eq_ok, pure_eq_ok,
    ensure_eq_ok, findConversationOrThrow, orThrow_eq_ok] at h
  obtain ⟨current, _, ⟨_, _, ⟨rfl, rfl⟩, hcurrent, rfl⟩, _, _, ⟨_, _, ⟨rfl, rfl⟩, rfl, rfl⟩, _, _,
    ⟨hallowed, rfl⟩, _, _, ⟨-, rfl⟩, _, _, ⟨rfl, rfl⟩, h⟩ := h
  split at h
  · cases (pure_eq_ok.mp h).1
  simp only [bind_eq_ok, orThrow_eq_ok, pure_eq_ok] at h
  obtain ⟨_, db₁, hupdate, replyTo, _, ⟨-, rfl⟩, id, db₂, hcreate, _, db₃, hclaim, _,
      db₄, hevents, -,
    rfl⟩ := h
  obtain ⟨-, rfl⟩ := updateConversation_eq_ok hupdate
  obtain ⟨-, hc⟩ := createOutbound_eq_ok (fun _ => rfl) (fun _ => rfl) hcreate
  have hafter := (keepsBases_claimAttachmentsForMessage _ _ _ hclaim).trans
    (keepsBases_appendIntentEvents _ _ _ _ _ hevents)
  rw [Bool.and_eq_true, isEmailAddressAllowed_iff, isEmailAddressAllowed_iff] at hallowed
  have hreopened : ∃ row, db₂.conversations.get? conversation.id = some row ∧
      row.replyToBaseAddress = some value.message.replyTo.address := by
    have hid := Table.key_of_get? hcurrent
    rw [hc.conversations]
    simp [hcurrent, hid]
  obtain ⟨opened, hopened, hbase₁⟩ := hreopened
  obtain ⟨row, hrow, hbase⟩ := hafter.base _ _ hopened
  rw [hrequest]
  refine ⟨by simpa [SendRequest.identities] using hallowed, _,
    hc.sends (fun _ => rfl) hafter.messages, ?_, ?_⟩
  · simp [SendRequest.identities, messageCreateData, outboundMessage]
  · exact fun _ =>
      ⟨conversation.id, row, _, rfl, hrow, hbase.trans hbase₁, by simp [SendRequest.identities]⟩

theorem createReply_allowed {ctx : SendContext Digest} {queued : Bool} {conversationId : Uuid}
    {value : MessageV2Input} (hrequest : ctx.request = .reply queued conversationId value)
    {parent : ReplyParent} {db db' : Database Digest} {id : Uuid}
    (h : createReply ctx conversationId value parent db = .ok (id, db')) :
    StoresAllowed ctx.request db db' := by
  simp only [createReply, bind_eq_ok, lockAllowedEmailIdentities, get_eq_ok, pure_eq_ok,
    ensure_eq_ok, findConversationOrThrow, orThrow_eq_ok] at h
  obtain ⟨current, _, ⟨_, _, ⟨rfl, rfl⟩, hcurrent, rfl⟩, _, _, ⟨_, _, ⟨rfl, rfl⟩, rfl, rfl⟩, _, _,
    ⟨hallowed, rfl⟩, _, _, ⟨-, rfl⟩, replyTo, _, ⟨-, rfl⟩, id, db₁, hcreate, _, db₂, hclaim, _,
      db₃, hupdate, _,
    db₄, hstate, _, db₅, hevents, rfl, rfl⟩ := h
  obtain ⟨-, hc⟩ := createOutbound_eq_ok (fun _ => rfl) (fun _ => rfl) hcreate
  have hclaimed := keepsBases_claimAttachmentsForMessage _ _ _ hclaim
  obtain ⟨⟨r, hr, -⟩, rfl⟩ := updateConversation_eq_ok hupdate
  have hafter := (keepsBases_applyAutomaticState _ _ _ hstate).trans
    (keepsBases_appendIntentEvents _ _ _ _ _ hevents)
  rw [Bool.and_eq_true, isEmailAddressAllowed_iff, isEmailAddressAllowed_iff] at hallowed
  have hpromoted : ∃ row, (db₂.conversations.update (fun c => c.id == conversationId) fun c =>
      { c with
        apiVersion := some .v2
        replyToBaseAddress := some value.replyTo.address
        replyToRequiresAllowlist := true
        lastMessageAt := max c.lastMessageAt ctx.now }).get? conversationId = some row ∧
      row.replyToBaseAddress = some value.replyTo.address := by
    have hid := Table.key_of_get? hr
    simp [hr, hid]
  obtain ⟨promoted, hpromoted, hbase₁⟩ := hpromoted
  obtain ⟨row, hrow, hbase⟩ := hafter.base conversationId promoted hpromoted
  rw [hrequest]
  refine ⟨by simpa [SendRequest.identities] using hallowed, _,
    hc.sends (fun _ => rfl) (hafter.messages.trans hclaimed.messages), ?_, ?_⟩
  · simp [SendRequest.identities, replyCreateData, outboundMessage]
  · exact fun _ =>
      ⟨conversationId, row, _, congrArg some (Table.key_of_get? hcurrent), hrow, hbase.trans hbase₁,
      by simp [SendRequest.identities]⟩

theorem createDirect_allowed {ctx : SendContext Digest} {queued : Bool} {value : DirectEmailV2Input}
    (hrequest : ctx.request = .direct queued value) {db db' : Database Digest} {id : Uuid}
    (h : createDirect ctx value db = .ok (id, db')) : StoresAllowed ctx.request db db' := by
  simp only [createDirect, bind_eq_ok, lockAllowedEmailIdentity, get_eq_ok, pure_eq_ok,
    ensure_eq_ok] at h
  obtain ⟨_, _, ⟨_, _, ⟨rfl, rfl⟩, rfl, rfl⟩, _, _, ⟨hallowed, rfl⟩, id, db₁, hcreate, _, db₂,
      hclaim, rfl,
    rfl⟩ := h
  obtain ⟨-, hc⟩ := createOutbound_eq_ok (fun _ => rfl) (fun _ => rfl) hcreate
  have hafter := keepsBases_claimAttachmentsForMessage _ _ _ hclaim
  rw [isEmailAddressAllowed_iff] at hallowed
  rw [hrequest]
  refine ⟨by simpa [SendRequest.identities] using hallowed, _,
    hc.sends (fun _ => rfl) hafter.messages, ?_, ?_⟩
  · simp [SendRequest.identities, directCreateData, outboundMessage]
  · intro hkind
    simp [directCreateData, outboundMessage, hrequest, SendRequest.kind] at hkind

theorem storeMessage_allowed {ctx : SendContext Digest} {parent : Option ReplyParent}
    {db db' : Database Digest} {id : Uuid}
    (h : SendHandler.storeMessage ctx parent db = .ok (id, db')) :
    StoresAllowed ctx.request db db' := by
  unfold SendHandler.storeMessage at h
  cases hrequest : ctx.request with
  | opening queued value =>
      rw [hrequest] at h
      exact hrequest ▸ openConversation_allowed hrequest h
  | reply queued conversationId value =>
      rw [hrequest] at h
      cases parent with
      | none => exact (throw_eq_ok.mp h).elim
      | some p => exact hrequest ▸ createReply_allowed hrequest h
  | direct queued value =>
      rw [hrequest] at h
      exact hrequest ▸ createDirect_allowed hrequest h

/-! ### Steps -/

section
variable [DecidableEq Digest] {s s' : System Digest}

/-- An entry of the allowlist stays until it is revoked. -/
theorem allowlist_step {a : Action Digest} (hs : step rt s a = some s')
    {entry : EmailAddressAllowlistEntry} (he : entry ∈ s.db.allowlist)
    (hrevoke : a ≠ .operator (.revokeIdentity entry)) :
    entry ∈ s'.db.allowlist := by
  by_cases hgrant : (s.grant rt a).allowlist
  · obtain ⟨other, rfl | rfl⟩ := System.allowlist_granted hgrant
    · cases hs
      rcases s.transact_cases
        ((OperatorRequest.grantIdentity other).transaction s.config s.now) with
        ⟨r, db', hx, heq⟩ | ⟨e, heq⟩
      · rw [heq]
        simp only [OperatorRequest.transaction, grantIdentity, bind_eq_ok, insertRow_eq_ok,
          pure_eq_ok] at hx
        obtain ⟨_, _, ⟨table, ht, rfl⟩, -, rfl⟩ := hx
        exact (Table.mem_insert? ht).mpr (.inl he)
      · rw [heq]
        exact he
    · cases hs
      have hne : entry ≠ other := by
        rintro rfl
        exact hrevoke rfl
      exact Table.mem_delete.mpr ⟨he, by simpa using hne⟩
  · rw [(step_performs hs).allowlist_eq hgrant]
    exact he

end

section
variable [DecidableEq Digest] {s s' : System Digest}

/-- What a send transaction inserts, it found allowed. -/
theorem transacting_step {pid : ℕ} {c : Choice Digest} (hs : step rt s (.run pid c) = some s')
    {p : Proc Digest} (hruns : s.Runs pid p) {request : SendRequest}
    (hp : p.transacting = some request) {m : EmailMessage Digest} (hm : m ∈ s'.db.messages)
    (hnew : s.db.messages.get? m.id = none) :
    (∀ e ∈ request.identities, e ∈ s.db.allowlist) ∧ s'.db.Sends (· ∈ request.identities) m := by
  have hstores : StoresAllowed request s.db s'.db := by
    rcases transacting_cases hs hruns hp with
      hsame | ⟨h, id, rfl, ⟨parent, hx⟩ | ⟨queued, value, conversation, hrequest, hx⟩⟩
    · rw [hsame, Table.mem_iff_get?] at hm
      rw [hm] at hnew
      cases hnew
    · exact storeMessage_allowed hx
    · exact @reopenConversation_allowed _ (h.context rt s c) _ _ hrequest _ _ _ _ hx
  obtain ⟨hallowed, m', hget, hsends⟩ := hstores
  have hm' := Table.mem_iff_get?.mp hm
  rw [hget] at hm'
  split at hm'
  · cases hm'
    exact ⟨hallowed, hsends⟩
  · rw [hnew] at hm'
    cases hm'

end

/-! ### The system with its locks -/

/-- The system, and for each open send transaction the allowlist that it read. -/
structure Locking (Digest : Type) where
  system : System Digest
  opened : Table
    (@Prod.fst ℕ (Table (id : EmailAddressAllowlistEntry → EmailAddressAllowlistEntry)))

inductive LockingAction (Digest : Type) where
  | act (action : Action Digest)
  /-- A send transaction begins: it reads the allowlist and locks the rows that it found. -/
  | lock (pid : ℕ)
  /-- The rest of the transaction, and its commit. -/
  | commit (pid : ℕ) (choice : Choice Digest)

namespace Locking

def initial (config : Config) (now : Time) : Locking Digest := ⟨.initial config now, .empty⟩

/-- The request whose send transaction the process runs next. -/
def request (t : Locking Digest) (pid : ℕ) : Option SendRequest :=
  (t.system.procs.get? pid).bind fun p => p.2.transacting

/-- The rows that an open transaction has locked. -/
def locks (t : Locking Digest) (entry : EmailAddressAllowlistEntry) : Bool :=
  t.opened.rows.any fun o => o.2.rows.contains entry &&
    (t.request o.1).any fun request => request.identities.contains entry

/-- A send transaction does not run in one step, and a locked row is not removed. -/
def admits (t : Locking Digest) : Action Digest → Bool
  | .run pid _ => (t.request pid).isNone
  | .operator (.revokeIdentity entry) => !t.locks entry
  | _ => true

variable [DecidableEq Digest]

def step (rt : Runtime Digest) (t : Locking Digest) : LockingAction Digest → Option (Locking Digest)
  | .act a =>
      if t.admits a then
        (ResendConversation.step rt t.system a).map fun s =>
          ⟨s, t.opened.delete fun o => a.pid? == some o.1⟩
      else none
  | .lock pid =>
      if (t.request pid).isSome ∧ t.opened.get? pid = none then
        some { t with opened := t.opened.set (pid, t.system.db.allowlist) }
      else none
  | .commit pid c =>
      -- the transaction evaluates its first statement on the allowlist that it read
      (t.opened.get? pid).bind fun o =>
        let db := t.system.db
        (ResendConversation.step rt { t.system with db := { db with allowlist := o.2 } }
          (.run pid c)).map
          fun s => ⟨{ s with db := { s.db with allowlist := db.allowlist } },
            t.opened.delete fun o => o.1 == pid⟩

/-- The states of the system with its locks. -/
def Reachable (rt : Runtime Digest) (t : Locking Digest) : Prop :=
  ∃ config now, Run (step rt) Always (initial config now) t

/-- An open transaction belongs to a process that waits for it, and the rows that it found are
still in the allowlist. -/
def Held (t : Locking Digest) : Prop :=
  ∀ o ∈ t.opened, ∃ request, t.request o.1 = some request ∧
    ∀ e ∈ request.identities, e ∈ o.2 → e ∈ t.system.db.allowlist

variable {t t' : Locking Digest}

omit [DecidableEq Digest] in
theorem runs_of_request {pid : ℕ} {request : SendRequest} (h : t.request pid = some request) :
    ∃ p, t.system.Runs pid p ∧ p.transacting = some request := by
  obtain ⟨⟨q, p⟩, hget, hp⟩ := Option.bind_eq_some_iff.mp h
  obtain rfl := Table.key_of_get? hget
  exact ⟨p, hget, hp⟩

omit [DecidableEq Digest] in
theorem request_of_runs {pid : ℕ} {p : Proc Digest} (h : t.system.Runs pid p) :
    t.request pid = p.transacting := by
  unfold request
  rw [show t.system.procs.get? pid = some (pid, p) from h, Option.bind_some]

theorem Held.step {a : LockingAction Digest} (h : t.Held) (hs : t.step rt a = some t') :
    t'.Held := by
  cases a with
  | act a =>
      simp only [Locking.step] at hs
      split at hs
      next hadmits =>
        obtain ⟨s, hstep, rfl⟩ := Option.map_eq_some_iff.mp hs
        intro o hkept
        obtain ⟨ho, hpid⟩ := Table.mem_delete.mp hkept
        obtain ⟨request, hrequest, hheld⟩ := h o ho
        have hother := step_others hstep (q := o.1) (by simpa using hpid)
        refine ⟨request, by rwa [Locking.request, hother], fun e he hread => ?_⟩
        refine allowlist_step hstep (hheld e he hread) ?_
        rintro rfl
        -- a locked row is not removed
        have hlocks : t.locks e = true := by
          refine List.any_eq_true.mpr ⟨o, ho, ?_⟩
          simp only [hrequest, Option.any_some, Bool.and_eq_true, List.contains_iff_mem]
          exact ⟨hread, he⟩
        simp [admits, hlocks] at hadmits
      next => cases hs
  | lock pid =>
      simp only [Locking.step] at hs
      split at hs
      next hopen =>
        cases hs
        intro o ho
        rcases Table.mem_set.mp ho with rfl | ⟨ho, -⟩
        · obtain ⟨request, hrequest⟩ := Option.isSome_iff_exists.mp hopen.1
          exact ⟨request, hrequest, fun e _ he => he⟩
        · exact h o ho
      next => cases hs
  | commit pid c =>
      simp only [Locking.step] at hs
      obtain ⟨read, -, hs⟩ := Option.bind_eq_some_iff.mp hs
      obtain ⟨s, hstep, rfl⟩ := Option.map_eq_some_iff.mp hs
      intro o ho
      obtain ⟨ho, hpid⟩ := Table.mem_delete.mp ho
      obtain ⟨request, hrequest, hheld⟩ := h o ho
      have hother := step_others hstep (q := o.1) (by
        rintro heq
        cases heq
        simp at hpid)
      exact ⟨request, by simpa [Locking.request, hother] using hrequest, hheld⟩

theorem Reachable.held (h : t.Reachable rt) : t.Held := by
  obtain ⟨config, now, hrun⟩ := h
  refine hrun.invariant (I := Held) ?_ fun _ _ _ hheld _ hs => hheld.step hs
  intro o ho
  cases ho

/-- A message that a transaction stores is sent with identities that the allowlist names when the
transaction commits, and a revocation changes no message. -/
theorem Reachable.sends_allowed (h : t.Reachable rt) {a : LockingAction Digest}
    (hs : t.step rt a = some t') :
    (∀ m ∈ t'.system.db.messages, m.direction = .outbound → t.system.db.messages.get? m.id = none →
      t'.system.db.Sends (· ∈ t'.system.db.allowlist) m) ∧
    ∀ entry, a = .act (.operator (.revokeIdentity entry)) →
      t'.system.db.messages = t.system.db.messages := by
  refine ⟨fun m hm hout hnew => ?_, ?_⟩
  · cases a with
    | act a =>
        simp only [Locking.step] at hs
        split at hs
        next hadmits =>
          obtain ⟨s, hstep, rfl⟩ := Option.map_eq_some_iff.mp hs
          have hold := inserted_step hstep (by
            rintro pid c rfl p hruns
            simpa [admits, request_of_runs hruns] using hadmits) hm hout
          rw [hnew] at hold
          cases hold
        next => cases hs
    | lock pid =>
        simp only [Locking.step] at hs
        split at hs
        · cases hs
          rw [Table.mem_iff_get?.mp hm] at hnew
          cases hnew
        · cases hs
    | commit pid c =>
        simp only [Locking.step] at hs
        obtain ⟨⟨q, read⟩, hopened, hs⟩ := Option.bind_eq_some_iff.mp hs
        obtain ⟨s, hstep, rfl⟩ := Option.map_eq_some_iff.mp hs
        obtain rfl := Table.key_of_get? hopened
        obtain ⟨request, hrequest, hheld⟩ := h.held _ (Table.mem_of_get? hopened)
        obtain ⟨p, hruns, hp⟩ := runs_of_request hrequest
        obtain ⟨hallowed, hsends⟩ := transacting_step hstep hruns hp hm hnew
        have hcommitted := hsends.mono fun e he => hheld e he (hallowed e he)
        exact ⟨hcommitted.sender, hcommitted.replyTo⟩
  · rintro entry rfl
    simp only [Locking.step] at hs
    split at hs
    · obtain ⟨s, hstep, rfl⟩ := Option.map_eq_some_iff.mp hs
      cases hstep
      rfl
    · cases hs

/-- A reply-to identity that is to be revoked while an opening holds its lock. -/
theorem sends_allowed_reference : ∃ t t' : Locking SendRequest, t.Reachable .reference ∧
    t.step .reference
      (.act (.operator (.revokeIdentity ⟨Reference.replyTo.address, .replyTo⟩))) = none ∧
      t'.system.db.messages.rows.length = 1 ∧ ∀ m ∈ t'.system.db.messages, m.direction = .outbound →
        t.system.db.messages.get? m.id = none →
          t'.system.db.Sends (· ∈ t'.system.db.allowlist) m := by
  obtain ⟨t, t', hrun, hstep, hrevoke, hlength⟩ := @Run.exists_of_exec_step _ _
    (Locking.step .reference) Always _ (.initial .reference 0)
    (Reference.grants.map .act ++
      [.act (.start 1 (.send (Reference.opening true (js "x")) (js "k")) {}),
      .act (.run 1 {}), .act (.run 1 {}), .lock 1])
    (.commit 1 {})
    (fun t t' => (t.step .reference
        (.act (.operator (.revokeIdentity ⟨Reference.replyTo.address, .replyTo⟩)))).isNone = true ∧
      t'.system.db.messages.rows.length = 1) _ (by decide +kernel)
  have ht : t.Reachable .reference := ⟨_, _, hrun⟩
  exact ⟨t, t', ht, by simpa using hrevoke, hlength, (ht.sends_allowed hstep).1⟩

end Locking

end ResendConversation
