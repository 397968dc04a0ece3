import ResendConversation.Effects

/-! # The transition function by its effects

`step_effect`: every step of the system has an `Effect`.  One lemma for each function of the
transition function, in the order of its modules. -/

namespace ResendConversation

open Foundation Tx

variable {Digest : Type} {rt : Runtime Digest} {s s' : System Digest} {a : Action Digest}

/-- A process that neither acts on a send nor on stored objects. -/
abbrev Proc.Idle (p : Proc Digest) : Prop := p.sends = false ∧ p.files = false

theorem Proc.Idle.absurd {p : Proc Digest} (h : p.Idle) (hp : p.sends = true ∨ p.files = true) :
    False := by
  rcases hp with hp | hp
  · rw [h.1] at hp
    cases hp
  · rw [h.2] at hp
    cases hp

namespace SendHandler

theorem respond_idle (h : SendHandler Digest) (r : SendResponse Digest) : (h.respond r).Idle :=
  ⟨rfl, rfl⟩

theorem afterThrow_idle (h : SendHandler Digest) (d : Delivery) :
    (h.afterThrow d).Idle := ⟨rfl, rfl⟩

theorem afterDelivery_idle (h : SendHandler Digest) (d : Delivery) (m : EmailMessage Digest) :
    (h.afterDelivery d m).Idle := respond_idle h _

theorem withParent_idle (h : SendHandler Digest) (parent : EmailMessage Digest) (id : JsString) :
    (h.withParent parent id).Idle := by
  unfold withParent
  split
  · exact ⟨rfl, rfl⟩
  · exact ⟨rfl, rfl⟩

theorem afterRace_idle (h : SendHandler Digest) : h.afterRace.Idle := by
  unfold afterRace
  split
  · exact ⟨rfl, rfl⟩
  · exact ⟨rfl, rfl⟩
  · exact ⟨rfl, rfl⟩

/-- A send transaction that stored nothing. -/
theorem afterTransaction_idle_of_error (h : SendHandler Digest) (createdAt : Time) (e : TxError)
    (db : Database Digest) {onUnique : SendPhase Digest} (hunique : (h.goto onUnique).Idle) :
    (h.afterTransaction createdAt (.error e) db onUnique).Idle := by
  unfold afterTransaction
  split
  · contradiction
  · exact respond_idle _ _
  · exact respond_idle _ _
  · exact hunique
  · exact respond_idle _ _

/-- A send transaction that stored a queued message. -/
theorem afterTransaction_idle_of_queued (h : SendHandler Digest) (createdAt : Time) (id : Uuid)
    (db : Database Digest) {onUnique : SendPhase Digest} (hq : h.request.queued = true) :
    (h.afterTransaction createdAt (.ok id) db onUnique).Idle := by
  simp only [afterTransaction, hq, if_true]
  split
  · exact ⟨rfl, rfl⟩
  · split
    · exact respond_idle _ _
    · exact respond_idle _ _

end SendHandler

/-! ### Quiet steps -/

theorem Effect.of_passive {db' : Database Digest} (hp : Passive s.db db') (pid : ℕ)
    {p : Proc Digest} (hidle : p.Idle) : Effect rt s a ({ s with db := db' }.become pid p) := by
  refine .quiet hp rfl rfl rfl le_rfl fun q p' hq hactive => ?_
  rcases System.runs_become.mp hq with ⟨-, rfl⟩ | ⟨-, hq⟩
  · exact (hidle.absurd hactive).elim
  · exact hq

theorem Effect.of_become (pid : ℕ) {p : Proc Digest} (hidle : p.Idle) :
    Effect rt s a (s.become pid p) :=
  .of_passive (Std.Refl.refl s.db) pid hidle

/-- A quiet transaction after which the process is idle. -/
theorem Effect.of_transact {α : Type} {x : Transaction Digest α} (hx : Quiet x) (pid : ℕ)
    {p : Except TxError α → System Digest → Proc Digest} (hidle : ∀ r t, (p r t).Idle) :
    Effect rt s a ((s.transact x).2.become pid (p (s.transact x).1 (s.transact x).2)) := by
  rcases s.transact_cases x with ⟨r, db', h, heq⟩ | ⟨e, heq⟩
  · rw [heq]
    exact .of_passive (hx h) pid (hidle _ _)
  · rw [heq]
    exact .of_become pid (hidle _ _)

namespace SendHandler

variable {h : SendHandler Digest} {pid : ℕ} {c : Choice Digest}

/-- The answer to a key that has a message. -/
theorem answerStored_effect [DecidableEq Digest] (hruns : s.Runs pid (.send h))
    {m : EmailMessage Digest} (hm : m ∈ s.db.messages) (conflict : JsString) :
    Effect rt s (.run pid c) (s.become pid (h.answerStored rt m conflict)) := by
  unfold answerStored
  split
  next hanswers =>
    split
    · exact .of_become pid (respond_idle _ _)
    next hq =>
      simp only [answersReplay, Bool.and_eq_true, decide_eq_true_eq] at hanswers
      exact .engaged pid c h m rfl hruns hm hanswers.1 (by simpa using hq) rfl
  · exact .of_become pid (respond_idle _ _)

theorem loadParent_effect (hs : h.loadParent s pid = some s') : Effect rt s a s' := by
  unfold loadParent at hs
  split at hs
  · split at hs
    · cases hs
      exact .of_become pid (respond_idle _ _)
    · split at hs
      · cases hs
        exact .of_become pid (respond_idle _ _)
      · split at hs
        · cases hs
          exact .of_become pid (respond_idle _ _)
        · cases hs
          exact .of_become pid ⟨rfl, rfl⟩
  · cases hs

theorem ensureMessageId_effect (parent : EmailMessage Digest) :
    Effect rt s a (h.ensureMessageId s pid parent) := by
  unfold ensureMessageId
  split
  · exact .of_become pid (respond_idle _ _)
  · split
    · exact .of_become pid (withParent_idle _ _ _)
    · exact .of_become pid (respond_idle _ _)
    · exact .of_become pid ⟨rfl, rfl⟩

theorem retrieveMessageId_effect (parent stored : EmailMessage Digest) :
    Effect rt s a (h.retrieveMessageId rt s pid parent stored c) := by
  unfold retrieveMessageId
  split
  · exact .of_become pid (respond_idle _ _)
  next id createdAt _ =>
    have hwrite : Quiet (if stored.direction = .outbound then
        recordOutboundInternetMessageId rt s.config c.scan s.now stored.id id createdAt
      else updateMessage stored.id fun m => { m with internetMessageId := some id }) :=
      .ite (quiet_recordOutboundInternetMessageId _ _ _ _ _ _ _)
        (quiet_updateMessage (fun _ => rfl) fun _ => rfl)
    dsimp only
    rcases s.transact_cases (if stored.direction = .outbound then
        recordOutboundInternetMessageId rt s.config c.scan s.now stored.id id createdAt
      else updateMessage stored.id fun m => { m with internetMessageId := some id })
      with ⟨r, db', hx, heq⟩ | ⟨e, heq⟩
    · rw [heq]
      exact .of_passive (hwrite hx) pid (withParent_idle _ _ _)
    · rw [heq]
      exact .of_become pid (respond_idle _ _)

/-- A committed send transaction, and where its handler goes. -/
theorem stored_effect (hruns : s.Runs pid (.send h)) {reopened : Option EmailConversation}
    {onUnique : SendPhase Digest} {db' : Database Digest} {id : Uuid}
    (hreopens : ∀ r, reopened = some r → (Proc.send h).reopens = some r)
    (hstores : StoredBy (h.context rt s c) reopened s.db db' id) :
    Effect rt s (.run pid c) ({ s with db := db' }.become pid
      (h.afterTransaction (h.context rt s c).createdAt (.ok id) db' onUnique)) := by
  refine .stored pid c h reopened db' id _ rfl hruns hreopens hstores ?_ rfl
  split
  next hq => exact afterTransaction_idle_of_queued _ _ _ _ hq
  next hq => simp [afterTransaction, hq]

theorem storeMessage_stored {ctx : SendContext Digest} {parent : Option ReplyParent}
    {db db' : Database Digest} {id : Uuid} (h : storeMessage ctx parent db = .ok (id, db')) :
    StoredBy ctx none db db' id := by
  rcases hr : ctx.request with ⟨queued, value⟩ | ⟨queued, conversationId, value⟩ | ⟨queued, value⟩
  · unfold storeMessage at h
    rw [hr] at h
    exact openConversation_stored h
  · unfold storeMessage at h
    rw [hr] at h
    cases parent with
    | some parent => exact createReply_stored hr h
    | none => exact (throw_eq_ok.mp h).elim
  · unfold storeMessage at h
    rw [hr] at h
    exact createDirect_stored hr h

theorem transact_effect (hruns : s.Runs pid (.send h)) (parent : Option ReplyParent) :
    Effect rt s (.run pid c) ((s.transact (storeMessage (h.context rt s c) parent)).2.become pid
      (h.afterTransaction (h.context rt s c).createdAt
        (s.transact (storeMessage (h.context rt s c) parent)).1
        (s.transact (storeMessage (h.context rt s c) parent)).2.db .raced)) := by
  rcases s.transact_cases (storeMessage (h.context rt s c) parent) with
    ⟨id, db', hx, heq⟩ | ⟨e, heq⟩
  · rw [heq]
    exact stored_effect hruns (by simp) (storeMessage_stored hx)
  · rw [heq]
    exact .of_become pid (afterTransaction_idle_of_error _ _ _ _ ⟨rfl, rfl⟩)

theorem reopenTransact_effect (hruns : s.Runs pid (.send h)) {conversation : EmailConversation}
    (hphase : h.phase = .reopenTransact conversation)
    (hs : h.reopenTransact rt s pid conversation c = some s') : Effect rt s (.run pid c) s' := by
  unfold reopenTransact at hs
  split at hs
  next value _ =>
    dsimp only at hs
    rcases s.transact_cases (reopenConversation (h.context rt s c) value conversation) with
      ⟨stored, db', hx, heq⟩ | ⟨e, heq⟩
    · rw [heq] at hs
      cases stored with
      | none =>
          cases hs
          rw [reopenConversation_none hx]
          exact .of_become pid (respond_idle _ _)
      | some id =>
          cases hs
          refine stored_effect hruns (fun r hr => ?_) (reopenConversation_stored hx)
          cases hr
          simp [Proc.reopens, hphase]
    · rw [heq] at hs
      cases hs
      exact .of_become pid (afterTransaction_idle_of_error _ _ _ _ ⟨rfl, rfl⟩)
  · cases hs

theorem raced_effect [DecidableEq Digest] (hruns : s.Runs pid (.send h)) :
    Effect rt s (.run pid c) (s.become pid (h.raced rt s)) := by
  unfold raced
  cases hm : findByIdempotencyKey s.db h.idempotencyKey with
  | some m => exact answerStored_effect hruns (List.mem_of_find?_eq_some hm) _
  | none => exact .of_become pid (afterRace_idle _)

/-! ### Delivery -/

theorem recover_effect (hruns : s.Runs pid (.send h)) {id : Uuid} (hphase : h.phase = .recover id) :
    Effect rt s (.run pid c) (h.recover s pid id) := by
  unfold recover
  cases hm : s.db.messages.get? id with
  | none => exact .of_become pid (respond_idle _ _)
  | some m =>
      have hid := Table.key_of_get? hm
      dsimp only
      split
      · exact .of_become pid (respond_idle _ _)
      · split
        · exact .expiring pid c h id rfl hruns hphase rfl
        next hwindow =>
          subst hid
          exact .resumed pid c h m rfl hruns hphase (Table.mem_of_get? hm)
            (by simpa using hwindow) rfl

/-- The update of a thrown delivery commits or rolls back. -/
theorem recordSendError_cases (s : System Digest) (id : Uuid) (error : SendError) :
    ∃ db', (s.transact (recordSendError id error)).2 = { s with db := db' } ∧
      (db' = s.db ∨ Rewrite (onMessage id (SendView.thrown error)) s.db db') := by
  rcases s.transact_cases (recordSendError id error) with ⟨m, db', hx, heq⟩ | ⟨e, heq⟩
  · exact ⟨db', by rw [heq], .inr (recordSendError_rewrite hx)⟩
  · exact ⟨s.db, by rw [heq], .inl rfl⟩

/-- A delivery that throws under its lock before its call. -/
theorem refused_effect (hruns : s.Runs pid (.send h)) {d : Delivery}
    {attachments : List SendEmailAttachmentInput} {m : EmailMessage Digest} {error : SendError}
    (hphase : h.phase = .deliver d (.lock attachments))
    (hfree : ∀ q p, s.Runs q p → p.holdsLock d.messageId = false)
    (hm : s.db.messages.get? d.messageId = some m) (hpending : m.state = .pending)
    (hcause : (m.idempotencyKey = none ∧ error = missingIdempotencyKey) ∨
      (s.config.resendApiKey = false ∧ error = missingApiKey)) :
    Effect rt s (.run pid c) (h.settle s pid d (.error error)) := by
  obtain ⟨db', heq, hdb⟩ := recordSendError_cases s d.messageId error
  simp only [settle, heq]
  rcases hdb with rfl | hdb
  · exact .of_become pid (afterThrow_idle _ _)
  · exact .refused pid c h d attachments m error db' _ rfl hruns hphase hfree hm hpending hcause hdb
      (afterThrow_idle _ _) rfl

theorem beginDelivery_effect (hruns : s.Runs pid (.send h)) {d : Delivery}
    {attachments : List SendEmailAttachmentInput}
    (hphase : h.phase = .deliver d (.lock attachments))
    (hs : h.beginDelivery s pid d attachments = some s') : Effect rt s (.run pid c) s' := by
  unfold beginDelivery at hs
  split at hs
  · cases hs
  next hlock =>
    have hfree : ∀ q p, s.Runs q p → p.holdsLock d.messageId = false := by
      intro q p hq
      by_contra hp
      exact hlock (List.any_eq_true.mpr ⟨(q, p), Table.mem_of_get? hq, by simpa using hp⟩)
    split at hs
    · cases hs
      exact .of_become pid (afterThrow_idle _ _)
    next m hm =>
      split at hs
      · cases hs
        exact .of_become pid ⟨rfl, rfl⟩
      next hpending =>
        rw [not_not] at hpending
        split at hs
        next hkey =>
          cases hs
          exact refused_effect hruns hphase hfree hm hpending (.inl ⟨by simpa using hkey, rfl⟩)
        · split at hs
          · cases hs
            exact .called pid c h d attachments m rfl hruns hphase hfree hm hpending rfl
          next hkey =>
            cases hs
            exact refused_effect hruns hphase hfree hm hpending (.inr ⟨by simpa using hkey, rfl⟩)

theorem settled_effect (hruns : s.Runs pid (.send h)) {d : Delivery} {m : EmailMessage Digest}
    {callId : Uuid} {observation : Observation} (hphase : h.phase = .deliver d (.calling m callId))
    (hwaits : c.fails = false)
    (hobserved : s.provider.observation callId c.lost = some observation) :
    Effect rt s (.run pid c)
      (h.settle { s with provider := s.provider.observe callId observation } pid d
        (sendResult observation)) := by
  have hsettled : ∀ db' p, db' = s.db ∨ Rewrite (onMessage d.messageId
      (SendView.settled (sendResult observation))) s.db db' → Proc.Idle p →
      Effect rt s (.run pid c) ({ s.observe callId observation with db := db' }.become pid p) :=
    fun db' p hrewrite hidle =>
      .settled pid c h d m callId observation db' p rfl hruns hphase hwaits
      hobserved hrewrite hidle rfl
  change Effect rt s (.run pid c)
    (h.settle (s.observe callId observation) pid d (sendResult observation))
  cases hresult : sendResult observation with
  | ok id =>
      rw [hresult] at hsettled
      rcases (s.observe callId observation).transact_cases
        (recordSent (s.observe callId observation).config d.messageId id) with ⟨r, db', hx,
          heq⟩ | ⟨e, heq⟩
      · simp only [settle, heq]
        exact hsettled db' _ (.inr (recordSent_rewrite hx).1) ⟨rfl, rfl⟩
      · simp only [settle, heq]
        exact hsettled s.db _ (.inl rfl) (afterThrow_idle _ _)
  | error error =>
      rw [hresult] at hsettled
      obtain ⟨db', heq, hdb⟩ :=
        recordSendError_cases (s.observe callId observation) d.messageId error
      simp only [settle, heq]
      exact hsettled db' _ hdb (afterThrow_idle _ _)

theorem hydrateSent_effect {d : Delivery} {m : EmailMessage Digest} :
    Effect rt s (.run pid c) (h.hydrateSent rt s pid d m c) := by
  have hstay : Effect rt s (.run pid c) s :=
    .quiet (Std.Refl.refl _) rfl rfl rfl le_rfl fun _ _ h _ => h
  unfold hydrateSent
  split
  · exact .of_become pid (afterDelivery_idle _ _ _)
  · split
    · exact .of_become pid (afterDelivery_idle _ _ _)
    next id createdAt _ =>
      rcases s.transact_cases
        (recordOutboundInternetMessageId rt s.config c.scan s.now m.id id createdAt)
        with ⟨r, db', hx, heq⟩ | ⟨e, heq⟩
      · simp only [heq]
        exact .of_passive (quiet_recordOutboundInternetMessageId _ _ _ _ _ _ _ hx) pid
          (afterDelivery_idle _ _ _)
      · simp only [heq]
        exact hstay

theorem deliver_effect (hruns : s.Runs pid (.send h)) {d : Delivery} {phase : DeliveryPhase Digest}
    (hphase : h.phase = .deliver d phase) (hs : h.deliver rt s pid d c phase = some s') :
    Effect rt s (.run pid c) s' := by
  cases phase with
  | prepare =>
      simp only [deliver] at hs
      split at hs
      · cases hs
        exact .of_become pid (afterThrow_idle _ _)
      · cases hs
        exact .prepared pid c h d _ rfl hruns hphase rfl
  | lock attachments =>
      simp only [deliver] at hs
      split at hs
      · cases hs
        exact .of_become pid (afterThrow_idle _ _)
      · exact beginDelivery_effect hruns hphase hs
  | calling m callId =>
      simp only [deliver] at hs
      split at hs
      · cases hs
        exact .of_become pid (afterThrow_idle _ _)
      next hwaits =>
        split at hs
        · cases hs
        next observation hobserved =>
          cases hs
          exact settled_effect hruns hphase (by simpa using hwaits) hobserved
  | hydrate m =>
      cases hs
      exact hydrateSent_effect

theorem reload_effect (id : Uuid) (mode : ReloadMode) : Effect rt s a (h.reload s pid id mode) := by
  unfold reload
  split
  · exact .of_become pid (respond_idle _ _)
  · cases mode <;> exact .of_become pid (respond_idle _ _)

theorem step_effect [DecidableEq Digest] (hruns : s.Runs pid (.send h))
    (hs : h.step rt s pid c = some s') :
    Effect rt s (.run pid c) s' := by
  unfold step at hs
  split at hs
  · split at hs
    next m hm =>
      cases hs
      exact answerStored_effect hruns (List.mem_of_find?_eq_some hm) _
    · cases hs
      exact .of_become pid ⟨rfl, rfl⟩
  · split at hs
    · cases hs
      refine .of_become pid ?_
      split <;> exact ⟨rfl, rfl⟩
    · cases hs
      exact .of_become pid (respond_idle _ _)
  · exact loadParent_effect hs
  · cases hs
    exact ensureMessageId_effect _
  · cases hs
    exact retrieveMessageId_effect _ _
  · cases hs
    exact transact_effect hruns _
  · cases hs
    exact raced_effect hruns
  · split at hs
    · split at hs
      · cases hs
        exact .of_become pid (respond_idle _ _)
      next conversation hfound =>
        cases hs
        have htopic := List.find?_some hfound
        simp only [Bool.and_eq_true, beq_iff_eq] at htopic
        exact .reopening pid c h conversation rfl hruns (List.mem_of_find?_eq_some hfound)
          (by simp [htopic.1]) rfl
    · cases hs
  next hphase => exact reopenTransact_effect hruns hphase hs
  · split at hs
    next m hm =>
      cases hs
      exact answerStored_effect hruns (List.mem_of_find?_eq_some hm) _
    · cases hs
      exact .of_become pid (respond_idle _ _)
  next hphase =>
    cases hs
    exact recover_effect hruns hphase
  next id hphase =>
    rcases s.transact_cases (expirePending id) with ⟨n, db', hx, heq⟩ | ⟨e, heq⟩
    · rw [heq] at hs
      cases hs
      exact .expired pid c h id db' _ rfl hruns hphase (expirePending_rewrite hx) ⟨rfl, rfl⟩ rfl
    · rw [heq] at hs
      cases hs
      exact .of_become pid ⟨rfl, rfl⟩
  next hphase => exact deliver_effect hruns hphase hs
  · cases hs
    exact reload_effect _ _
  · cases hs

end SendHandler

/-! ### The batch lane -/

namespace BatchWorker

variable {pid : ℕ} {c : Choice Digest}

theorem start_effect (hfree : s.procs.get? pid = none) (limit : ℕ) :
    Effect rt s a (start s pid limit c) := by
  unfold start claimOutboxBatch
  rcases s.transact_cases (claimTransaction (s.clock c.readAt) limit c.locked) with
    ⟨claim, db', hx, heq⟩ | ⟨e, heq⟩
  · rcases claimTransaction_eq_ok hx with ⟨rfl, rfl⟩ | ⟨loaded, rfl, hclaim⟩
    · simp only [heq]
      exact .batchSwept pid _ ⟨rfl, rfl⟩ rfl
    · simp only [heq]
      refine .batchClaimed pid c loaded db' _ hclaim hfree rfl ?_
      cases checkClaim s.db.nextId loaded <;> rfl
  · simp only [heq]
    exact .of_become pid ⟨rfl, rfl⟩

theorem send_effect {batch : ClaimedBatch Digest} {claimedAt : Time}
    (hruns : s.Runs pid (.batchDrain (.working batch (.claimed claimedAt)))) :
    Effect rt s (.run pid c) (send s pid batch claimedAt) := by
  unfold send
  dsimp only
  split
  · exact .batchSkipped pid c batch claimedAt _ rfl hruns (.inl rfl) rfl
  next hwindow =>
    split
    · exact .batchCalled pid c batch claimedAt rfl hruns hwindow rfl
    · exact .batchSkipped pid c batch claimedAt _ rfl hruns (.inr rfl) rfl

theorem step_effect {w : BatchWorker Digest} (hruns : s.Runs pid (.batchDrain w))
    (hs : w.step s pid c = some s') : Effect rt s (.run pid c) s' := by
  unfold step at hs
  split at hs
  · cases hs
    exact send_effect hruns
  · split at hs
    · cases hs
    next observation hobserved =>
      cases hs
      exact .batchObserved pid c _ _ observation rfl hruns hobserved rfl
  next batch decision =>
    rcases s.transact_cases (finalizeBatch s.config s.now batch decision) with
      ⟨u, db', hx, heq⟩ | ⟨e, heq⟩
    · rw [heq] at hs
      cases hs
      rcases finalizeBatch_eq_ok hx with hfinal | ⟨-, hretry⟩
      · exact .batchFinalized pid c batch decision db' _ rfl hruns hfinal ⟨rfl, rfl⟩ rfl
      · exact .batchRescheduled pid c batch decision db' _ rfl hruns hretry ⟨rfl, rfl⟩ rfl
    · rw [heq] at hs
      cases hs
      exact .of_become pid ⟨rfl, rfl⟩
  · cases hs

end BatchWorker

/-! ### The attachment lane -/

namespace EntryWorker

variable {pid : ℕ} {c : Choice Digest}

theorem claim_effect {remaining : ℕ} {result : AttachmentOutboxDrainResult}
    (hruns : s.Runs pid (.entryDrain (.idle (remaining + 1) result))) :
    Effect rt s (.run pid c) (claim s pid remaining result c) := by
  unfold claim
  rcases s.transact_cases (claimEntry (s.clock c.readAt) c.locked) with ⟨r, db', hx, heq⟩ | ⟨e, heq⟩
  · rcases claimEntry_eq_ok hx with ⟨rfl, rfl, -⟩ | ⟨entry, e, rfl, -, hclaim⟩
    · simp only [heq]
      exact .entrySwept pid _ ⟨rfl, rfl⟩ rfl
    · simp only [heq]
      exact .entryClaimed pid c remaining result entry e db' rfl hruns hclaim rfl
  · simp only [heq]
    exact .of_become pid ⟨rfl, rfl⟩

theorem exists_of_mapM_error {α β ε : Type} {f : α → Except ε β} {l : List α} {e : ε}
    (h : l.mapM f = .error e) : ∃ x ∈ l, f x = .error e := by
  induction l with
  | nil => cases h
  | cons x l ih =>
      rw [List.mapM_cons] at h
      cases hx : f x with
      | error e' =>
          rw [hx] at h
          cases h
          exact ⟨x, List.mem_cons_self, hx⟩
      | ok y =>
          rw [hx] at h
          cases hl : l.mapM f with
          | error e' =>
              rw [hl] at h
              cases h
              obtain ⟨z, hz, hfz⟩ := ih hl
              exact ⟨z, List.mem_cons_of_mem _ hz, hfz⟩
          | ok ys =>
              rw [hl] at h
              cases h

/-- The preparation of attachments only meets errors of its own. -/
theorem buildSendAttachments_error {messageId : Uuid} {fails : Bool} {error : SendError}
    (h : buildSendAttachments s messageId fails = .error error) :
    ∃ name message, error = .other name message ∧ name.storable = true := by
  unfold buildSendAttachments at h
  split at h
  · split at h
    · cases h
    · split at h
      · cases h
        exact ⟨_, _, rfl, by decide⟩
      · obtain ⟨attachment, -, hb⟩ := exists_of_mapM_error h
        unfold buildSendAttachment at hb
        split at hb
        · split at hb
          · cases hb
            exact ⟨_, _, rfl, by decide⟩
          · cases hb
        · cases hb
          exact ⟨_, _, rfl, by decide⟩
  · cases h

theorem send_effect {remaining : ℕ} {result : AttachmentOutboxDrainResult}
    {entry : ClaimedEntry Digest} {claimedAt : Time}
    (hruns : s.Runs pid (.entryDrain (.working remaining result entry (.claimed claimedAt)))) :
    Effect rt s (.run pid c) (send s pid entry claimedAt c.fails fun phase =>
      .entryDrain (.working remaining result entry phase)) := by
  have hskip : ∀ error : SendError,
      (∃ name message, error = .other name message ∧ name.storable = true) →
      Effect rt s (.run pid c) (s.become pid (.entryDrain (.working remaining result entry
        (.ending (decideEntryError s.now entry error))))) := by
    rintro _ ⟨name, message, rfl, -⟩
    exact .entrySkipped pid c remaining result entry claimedAt _ rfl hruns
      (.inr ⟨name, message, rfl⟩) rfl
  unfold send
  split
  · exact .entrySkipped pid c remaining result entry claimedAt _ rfl hruns (.inl rfl) rfl
  next hwindow =>
    split
    next error herror => exact hskip error (buildSendAttachments_error herror)
    next attachments _ =>
      split
      · exact .entryCalled pid c remaining result entry claimedAt attachments rfl hruns hwindow rfl
      · exact hskip _ ⟨_, _, rfl, by decide⟩

theorem asSendError_eq (e : TxError) :
    ∃ name message, e.asSendError = .other name message ∧ name.storable = true := by
  cases e <;> exact ⟨_, _, rfl, by decide⟩

theorem finish_effect {remaining : ℕ} {result : AttachmentOutboxDrainResult}
    {entry : ClaimedEntry Digest} {decision : EntryDecision}
    (hruns : s.Runs pid (.entryDrain (.working remaining result entry (.ending decision)))) :
    Effect rt s (.run pid c) (finish s pid remaining result entry decision) := by
  unfold finish
  rcases s.transact_cases (endEntry s.config s.now entry decision) with ⟨u, db', hx, heq⟩ | ⟨e, heq⟩
  · simp only [heq]
    rcases endEntry_eq_ok hx with hfinal | ⟨-, hretry⟩
    · exact .entryFinalized pid c remaining result entry decision db' _ rfl hruns hfinal
        ⟨rfl, rfl⟩ rfl
    · exact .entryRescheduled pid c remaining result entry decision db' _ rfl hruns hretry
        ⟨rfl, rfl⟩ rfl
  · simp only [heq]
    split
    · obtain ⟨name, message, herror, -⟩ := asSendError_eq e
      rw [herror]
      exact .entryRedecided pid c remaining result entry _ name message rfl hruns rfl
    · exact .of_become pid ⟨rfl, rfl⟩

theorem step_effect {w : EntryWorker Digest} (hruns : s.Runs pid (.entryDrain w))
    (hs : w.step s pid c = some s') : Effect rt s (.run pid c) s' := by
  unfold step at hs
  split at hs
  · cases hs
    exact .of_become pid ⟨rfl, rfl⟩
  · cases hs
    exact claim_effect hruns
  · cases hs
    exact send_effect hruns
  · split at hs
    · cases hs
    next observation hobserved =>
      cases hs
      exact .entryObserved pid c _ _ _ _ observation rfl hruns hobserved rfl
  · cases hs
    exact finish_effect hruns
  · cases hs

end EntryWorker

/-! ### Inbound mail and the operator -/

theorem quiet_createWebhookEvent (now : Time) (svixId eventType emailId : JsString)
    (eventCreatedAt : Time) (detail : Option JsString) :
    Quiet (createWebhookEvent now svixId eventType emailId eventCreatedAt detail :
      Transaction Digest _) :=
  .bind .get fun _ => .ite (.pure _) (.bind quiet_freshId fun _ => quiet_insertRow fun _ _ _ =>
    .of_messages_eq le_rfl rfl (.of_eq rfl) rfl rfl rfl rfl rfl)

theorem quiet_recordDeliveryWebhook (config : Config) (now : Time)
    (svixId eventType emailId : JsString) (eventCreatedAt : Time) (detail : Option JsString) :
    Quiet (recordDeliveryWebhook config now svixId eventType emailId eventCreatedAt
      detail : Transaction Digest _) := by
  refine .bind .get fun db => ?_
  split
  · exact quiet_projectOutboundDeliveryState _ _
  · exact .bind (quiet_createWebhookEvent _ _ _ _ _ _) fun _ =>
      quiet_projectOutboundDeliveryState _ _

/-- A quiet transaction of the operator or a webhook. -/
theorem Effect.of_quiet {α : Type} {x : Transaction Digest α} (hx : Quiet x) :
    Effect rt s a (s.transact x).2 := by
  rcases s.transact_cases x with ⟨r, db', h, heq⟩ | ⟨e, heq⟩
  · rw [heq]
    exact .quiet (hx h) rfl rfl rfl le_rfl fun _ _ h _ => h
  · rw [heq]
    exact .quiet (Std.Refl.refl _) rfl rfl rfl le_rfl fun _ _ h _ => h

theorem operator_effect (request : OperatorRequest) :
    Effect rt s (.operator request) (s.transact (request.transaction s.config s.now)).2 := by
  cases request with
  | assignTopic id topic title => exact .of_quiet (quiet_assignTopic _ _ _ _ _)
  | setConversationState id state => exact .of_quiet (quiet_setConversationState _ _ _ _)
  | grantIdentity entry => exact .of_quiet ((quiet_grantIdentity entry).bind fun _ => .pure _)
  | revokeIdentity entry => exact .of_quiet ((quiet_revokeIdentity entry).bind fun _ => .pure _)
  | deleteConversation id =>
      rcases s.transact_cases
        (OperatorRequest.transaction s.config s.now (.deleteConversation id)) with
        ⟨r, db', hx, heq⟩ | ⟨e, heq⟩
      · rw [heq]
        rcases deleteConversation_eq_ok hx with rfl | hdeleted
        · exact .quiet (Std.Refl.refl _) rfl rfl rfl le_rfl fun _ _ h _ => h
        · exact .deleted id db' rfl hdeleted rfl
      · rw [heq]
        exact .quiet (Std.Refl.refl _) rfl rfl rfl le_rfl fun _ _ h _ => h

namespace ReceiveHandler

variable {h : ReceiveHandler Digest} {pid : ℕ} {c : Choice Digest}

theorem goto_idle (h : ReceiveHandler Digest) (phase : ReceivePhase Digest) : (h.goto phase).Idle :=
  ⟨rfl, rfl⟩

theorem beginHydration_idle (h : ReceiveHandler Digest) (participantAddress : JsString)
    (ids : List JsString) (preferred : Option JsString) (email : Option ResendEmail) :
    (h.beginHydration rt s participantAddress ids preferred email).Idle := by
  unfold beginHydration
  split <;> exact goto_idle _ _

theorem inspect_idle (h : ReceiveHandler Digest) : (h.inspect rt s).Idle := by
  unfold inspect
  split
  · split
    · exact goto_idle _ _
    · exact beginHydration_idle _ _ _ _ _
  · exact goto_idle _ _

theorem fetch_idle (h : ReceiveHandler Digest) : (h.fetch rt s c).Idle := by
  unfold fetch
  split
  · exact goto_idle _ _
  · exact beginHydration_idle _ _ _ _ _

theorem hydrate_effect (hydration : Hydration Digest) (email : Option ResendEmail) :
    Effect rt s a (h.hydrate rt s pid hydration email c) := by
  unfold hydrate
  split
  · split
    · exact .of_become pid (goto_idle _ _)
    · split <;> exact .of_become pid (goto_idle _ _)
  next m pending _ =>
    split
    · exact .of_become pid (goto_idle _ _)
    next id createdAt _ =>
      rcases s.transact_cases
        (recordOutboundInternetMessageId rt s.config c.scan s.now m.id id createdAt)
        with ⟨r, db', hx, heq⟩ | ⟨e, heq⟩
      · simp only [heq]
        exact .of_passive (quiet_recordOutboundInternetMessageId _ _ _ _ _ _ _ hx) pid
          (goto_idle _ _)
      · simp only [heq]
        exact .of_become pid (goto_idle _ _)

theorem project_effect (email : ResendEmail) : Effect rt s a (h.project rt s pid email c) := by
  unfold project
  split
  · exact .of_become pid (goto_idle _ _)
  · rcases s.transact_cases (projectInboundEmail rt s.config c.scan s.now h.event email
      (s.config.resendReplyTo.getD [])) with ⟨r, db', hx, heq⟩ | ⟨e, heq⟩
    · simp only [heq]
      exact .of_passive (quiet_projectInboundEmail _ _ _ _ _ _ _ hx) pid (goto_idle _ _)
    · simp only [heq]
      cases e <;> exact .of_become pid (goto_idle _ _)

theorem step_effect (hs : h.step rt s pid c = some s') : Effect rt s a s' := by
  unfold step at hs
  split at hs
  · cases hs
    exact .of_transact (quiet_createWebhookEvent _ _ _ _ _ _) pid
      (p := fun _ _ => h.goto .inspect) fun _ _ => goto_idle _ _
  · cases hs
    exact .of_become pid (inspect_idle _)
  · cases hs
    exact .of_become pid (fetch_idle _)
  · cases hs
    exact hydrate_effect _ _
  · cases hs
    exact project_effect _
  · split at hs
    · cases hs
      exact .of_become pid (goto_idle _ _)
    · cases hs
      exact .of_become pid (goto_idle _ _)
  · cases hs
  · cases hs

end ReceiveHandler

/-! ### Stored objects -/

/-- A transaction of the ingest runtime, the reaper or an upload. -/
abbrev OnFiles {α : Type} (x : Transaction Digest α) : Prop := Preserves Background x

theorem onFiles_updateAttachments {p : EmailAttachment → Bool}
    {f : EmailAttachment → EmailAttachment} {keep : ∀ a, (f a).id = a.id} :
    OnFiles (updateAttachments p f keep : Transaction Digest _) := by
  intro db n db' h
  rw [updateAttachments, modifyGet_eq_ok, Prod.mk.injEq] at h
  obtain ⟨-, rfl⟩ := h
  exact .of_files le_rfl

theorem onFiles_freshId : OnFiles (freshId : Transaction Digest Uuid) :=
  quiet_freshId.mono fun _ _ h => h.toBackground

theorem onFiles_deleteStoredObject (now : Time) (key : StorageKey) :
    OnFiles (deleteStoredObject now key : Transaction Digest _) := by
  refine .modify fun db => ?_
  obtain ⟨n, tombstones, hn, heq, -⟩ := tombstoneFor_tombstoned now key db
  rw [heq]
  exact .of_files hn

theorem onFiles_expireUnreferencedUploads (now cutoff : Time) :
    OnFiles (expireUnreferencedUploads now cutoff : Transaction Digest _) := by
  refine .modify fun db => ?_
  obtain ⟨n, tombstones, hn, heq, -⟩ := deleteAttachments_eq now
    (fun a => a.source == .upload && a.messageId.isNone && a.createdAt < cutoff) db
  rw [heq]
  exact .of_files hn

theorem onFiles_claimPendingAttachments (now : Time) (locked : List Uuid) :
    OnFiles (claimPendingAttachments now locked : Transaction Digest _) :=
  .bind onFiles_freshId fun _ => .bind .get fun _ =>
    .bind onFiles_updateAttachments fun _ => .pure _

theorem onFiles_storeIngested (attachment : ClaimedAttachment) (sizeBytes : ℕ) :
    OnFiles (storeIngested attachment sizeBytes : Transaction Digest _) :=
  .bind onFiles_updateAttachments fun _ => .pure _

theorem onFiles_failAttachment (now : Time) (attachment : ClaimedAttachment) (error : IngestError) :
    OnFiles (failAttachment now attachment error : Transaction Digest _) :=
  .ite (.bind onFiles_updateAttachments fun _ => .pure _)
    (.bind onFiles_updateAttachments fun _ => .pure _)

theorem onFiles_claimTombstones (now : Time) (locked : List Uuid) :
    OnFiles (claimTombstones now locked : Transaction Digest _) :=
  .bind onFiles_freshId fun _ => .bind .get fun _ =>
    .bind (.modify fun _ => .of_files le_rfl) fun _ =>
    .pure _

theorem onFiles_finishTombstone (t : ClaimedTombstone) :
    OnFiles (finishTombstone t : Transaction Digest _) := .modify fun _ => .of_files le_rfl

theorem onFiles_retryTombstone (now : Time) (t : ClaimedTombstone) (errorName : JsString) :
    OnFiles (retryTombstone now t errorName : Transaction Digest _) := .modify fun _ =>
      .of_files le_rfl

theorem onFiles_createUpload (now : Time) (filename contentType : JsString) (sizeBytes : ℕ)
    (storageKey : StorageKey) :
    OnFiles (createUpload now filename contentType sizeBytes storageKey :
      Transaction Digest _) := by
  refine .bind onFiles_freshId fun id => .bind ?_ fun _ => .pure _
  intro db u db' h
  obtain ⟨-, table, -, rfl⟩ := createAttachment_eq_ok h
  exact .of_files le_rfl

/-- A step that leaves the send lanes alone and ends with the process in a given state. -/
theorem Effect.of_background {t : System Digest} (ha : s.Files a) (hb : Background s.db t.db)
    (hprovider : t.provider = s.provider) (hleases : t.leases = s.leases) (hnow : t.now = s.now)
    (hprocs : t.procs = s.procs) (pid : ℕ) {p : Proc Digest} (hp : p.sends = false) :
    Effect rt s a (t.become pid p) := by
  refine .filed hb hprovider hleases hnow (fun q p' hq hsends => ?_) ha
  rcases System.runs_become.mp hq with ⟨-, rfl⟩ | ⟨-, hq⟩
  · rw [hp] at hsends
    cases hsends
  · rwa [System.Runs, hprocs] at hq

/-- A step that leaves the send lanes alone and ends its process. -/
theorem Effect.of_background_finish {t : System Digest} (ha : s.Files a) (hb : Background s.db t.db)
    (hprovider : t.provider = s.provider) (hleases : t.leases = s.leases) (hnow : t.now = s.now)
    (hprocs : t.procs = s.procs) (pid : ℕ) : Effect rt s a (t.finish pid) := by
  refine .filed hb hprovider hleases hnow (fun q p' hq _ => ?_) ha
  have hq := (System.runs_finish.mp hq).2
  rwa [System.Runs, hprocs] at hq

theorem background_transact {α : Type} {x : Transaction Digest α} (hx : OnFiles x)
    (s : System Digest) : Background s.db (s.transact x).2.db := by
  rcases s.transact_cases x with ⟨r, db', h, heq⟩ | ⟨e, heq⟩
  · rw [heq]
    exact hx h
  · rw [heq]
    exact Std.Refl.refl _

/-- A transaction on files after which the process continues. -/
theorem Effect.of_onFiles {α : Type} {x : Transaction Digest α} (ha : s.Files a) (hx : OnFiles x)
    (pid : ℕ) {p : Proc Digest} (hp : p.sends = false) :
    Effect rt s a ((s.transact x).2.become pid p) :=
  .of_background ha (background_transact hx s) rfl rfl rfl rfl pid hp

theorem IngestWorker.start_effect (ha : s.Files a) (pid : ℕ) (c : Choice Digest) :
    Effect rt s a (IngestWorker.start s pid c) := by
  unfold IngestWorker.start
  rcases s.transact_cases (claimPendingAttachments (s.clock c.readAt) c.locked) with
    ⟨r, db', h, heq⟩ | ⟨e, heq⟩
  · simp only [heq]
    apply Effect.of_background
    exacts [ha, (onFiles_claimPendingAttachments _ _ h), rfl, rfl, rfl, rfl, rfl]
  · simp only [heq]
    exact .quiet (Std.Refl.refl _) rfl rfl rfl le_rfl fun _ _ h _ => h

theorem IngestWorker.step_effect (ha : s.Files a) (w : IngestWorker) (pid : ℕ) (c : Choice Digest) :
    Effect rt s a (w.step s pid c) := by
  have hb := Std.Refl.refl (r := Background) s.db
  unfold IngestWorker.step
  split
  · split
    · apply Effect.of_background_finish
      exacts [ha, hb, rfl, rfl, rfl, rfl]
    · apply Effect.of_background
      exacts [ha, hb, rfl, rfl, rfl, rfl, rfl]
  · unfold IngestWorker.fetch
    split
    · apply Effect.of_background
      exacts [ha, hb, rfl, rfl, rfl, rfl, rfl]
    · split
      · apply Effect.of_background
        exacts [ha, hb, rfl, rfl, rfl, rfl, rfl]
      · split
        · apply Effect.of_background
          exacts [ha, hb, rfl, rfl, rfl, rfl, rfl]
        · apply Effect.of_background
          exacts [ha, hb, rfl, rfl, rfl, rfl, rfl]
  next attachment sizeBytes _ =>
    unfold IngestWorker.store
    split
    · apply Effect.of_background
      exacts [ha, hb, rfl, rfl, rfl, rfl, rfl]
    · rcases s.transact_cases (storeIngested attachment sizeBytes) with ⟨r, db', h, heq⟩ | ⟨e, heq⟩
      · simp only [heq]
        cases r
        · apply Effect.of_background
          exacts [ha, (onFiles_storeIngested _ _ h), rfl, rfl, rfl, rfl, rfl]
        · apply Effect.of_background
          exacts [ha, (onFiles_storeIngested _ _ h), rfl, rfl, rfl, rfl, rfl]
      · simp only [heq]
        apply Effect.of_background
        exacts [ha, hb, rfl, rfl, rfl, rfl, rfl]
  · exact .of_onFiles ha (onFiles_deleteStoredObject _ _) pid rfl
  · exact .of_onFiles ha (onFiles_failAttachment _ _ _) pid rfl

theorem ReaperPhase.step_effect (ha : s.Files a) (phase : ReaperPhase) (pid : ℕ)
    (c : Choice Digest) :
    Effect rt s a (phase.step s pid c) := by
  have hb := Std.Refl.refl (r := Background) s.db
  unfold ReaperPhase.step
  split
  · rcases s.transact_cases (claimTombstones (s.clock c.readAt) c.locked) with
      ⟨r, db', h, heq⟩ | ⟨e, heq⟩
    · simp only [heq]
      apply Effect.of_background
      exacts [ha, (onFiles_claimTombstones _ _ h), rfl, rfl, rfl, rfl, rfl]
    · simp only [heq]
      apply Effect.of_background_finish
      exacts [ha, hb, rfl, rfl, rfl, rfl]
  · apply Effect.of_background_finish
    exacts [ha, hb, rfl, rfl, rfl, rfl]
  · unfold ReaperPhase.remove
    split
    · apply Effect.of_background
      exacts [ha, hb, rfl, rfl, rfl, rfl, rfl]
    · split
      · apply Effect.of_background
        exacts [ha, hb, rfl, rfl, rfl, rfl, rfl]
      · apply Effect.of_background
        exacts [ha, hb, rfl, rfl, rfl, rfl, rfl]
  · exact .of_onFiles ha (onFiles_finishTombstone _) pid rfl
  · exact .of_onFiles ha (onFiles_retryTombstone _ _ _) pid rfl

/-- Drawing a storage key. -/
theorem background_draw (db : Database Digest) :
    Background db { db with nextId := db.nextId + 1 } :=
  .of_messages_eq (Nat.le_succ _) rfl (.of_eq rfl) rfl rfl rfl

theorem UploadHandler.start_effect (ha : s.Files a) {pid : ℕ}
    {filename contentType : Option JsString} {c : Choice Digest}
    (hs : UploadHandler.start rt s pid filename contentType c = some s') :
    Effect rt s a s' := by
  unfold UploadHandler.start at hs
  split at hs
  · dsimp only at hs
    split at hs
    · cases hs
      exact .filed (background_draw _) rfl rfl rfl (fun _ _ h _ => h) ha
    · cases hs
      apply Effect.of_background
      exacts [ha, (background_draw _), rfl, rfl, rfl, rfl, rfl]
  · cases hs

theorem UploadHandler.step_effect (ha : s.Files a) (h : UploadHandler) (pid : ℕ)
    (c : Choice Digest) :
    Effect rt s a (h.step s pid c) := by
  have hb := Std.Refl.refl (r := Background) s.db
  unfold UploadHandler.step
  split
  · apply Effect.of_background_finish
    exacts [ha, (background_transact (onFiles_deleteStoredObject _ _) s), rfl, rfl, rfl, rfl]
  · split
    · apply Effect.of_background
      exacts [ha, hb, rfl, rfl, rfl, rfl, rfl]
    · rcases s.transact_cases
        (createUpload s.now h.filename h.contentType h.sizeBytes h.storageKey) with
        ⟨r, db', hx, heq⟩ | ⟨e, heq⟩
      · simp only [heq]
        apply Effect.of_background_finish
        exacts [ha, (onFiles_createUpload _ _ _ _ _ hx), rfl, rfl, rfl, rfl]
      · simp only [heq]
        apply Effect.of_background
        exacts [ha, hb, rfl, rfl, rfl, rfl, rfl]

/-! ### The system -/

theorem startJob_effect {pid : ℕ} {c : Choice Digest} {job : Job} (hfree : s.procs.get? pid = none)
    (hs : startJob rt s pid c job = some s') : Effect rt s (.start pid job c) s' := by
  cases job with
  | send request idempotencyKey =>
      simp only [startJob] at hs
      split at hs
      · cases hs
        exact .of_become pid ⟨rfl, rfl⟩
      · cases hs
  | batchDrain limit =>
      simp only [startJob] at hs
      split at hs
      · cases hs
        exact BatchWorker.start_effect hfree limit
      · cases hs
  | entryDrain limit =>
      simp only [startJob] at hs
      split at hs
      · cases hs
        exact .of_become pid ⟨rfl, rfl⟩
      · cases hs
  | receive svixId event =>
      cases hs
      exact .of_become pid ⟨rfl, rfl⟩
  | ingest =>
      simp only [startJob] at hs
      split at hs
      · cases hs
        exact IngestWorker.start_effect (.inl ⟨pid, _, c, rfl, .inl rfl⟩) pid c
      · cases hs
  | reaper =>
      simp only [startJob] at hs
      split at hs
      · cases hs
        exact .of_onFiles (.inl ⟨pid, _, c, rfl, .inr (.inl rfl)⟩)
          (onFiles_expireUnreferencedUploads _ _) pid rfl
      · cases hs
  | upload filename contentType =>
      exact UploadHandler.start_effect
        (.inl ⟨pid, _, c, rfl, .inr (.inr ⟨filename, contentType, rfl⟩)⟩) hs

theorem runProc_effect [DecidableEq Digest] {pid : ℕ} {c : Choice Digest} {p : Proc Digest}
    (hruns : s.Runs pid p) (hs : runProc rt s pid c p = some s') : Effect rt s (.run pid c) s' := by
  cases p with
  | send h => exact SendHandler.step_effect hruns hs
  | batchDrain w => exact BatchWorker.step_effect hruns hs
  | entryDrain w => exact EntryWorker.step_effect hruns hs
  | receive h => exact ReceiveHandler.step_effect hs
  | ingest w =>
      cases hs
      exact IngestWorker.step_effect (.inr ⟨pid, c, _, rfl, hruns, rfl⟩) w pid c
  | reaper phase =>
      cases hs
      exact ReaperPhase.step_effect (.inr ⟨pid, c, _, rfl, hruns, rfl⟩) phase pid c
  | upload h =>
      cases hs
      exact UploadHandler.step_effect (.inr ⟨pid, c, _, rfl, hruns, rfl⟩) h pid c

/-- Every step of the system has an effect. -/
theorem step_effect [DecidableEq Digest] (hs : step rt s a = some s') : Effect rt s a s' := by
  cases a with
  | tick ms =>
      cases hs
      exact .quiet (Std.Refl.refl _) rfl rfl rfl
        (Int.le_add_of_nonneg_right (Int.natCast_nonneg ms)) fun _ _ h _ => h
  | reconfigure config =>
      cases hs
      exact .quiet (Std.Refl.refl _) rfl rfl rfl le_rfl fun _ _ h _ => h
  | start pid job c =>
      simp only [step] at hs
      split at hs
      next hfree => exact startJob_effect hfree hs
      next => cases hs
  | run pid c =>
      obtain ⟨⟨q, p⟩, hp, hs⟩ := Option.bind_eq_some_iff.mp hs
      obtain rfl : q = pid := Table.key_of_get? hp
      exact runProc_effect hp hs
  | crash pid =>
      cases hs
      exact .quiet (Std.Refl.refl _) rfl rfl rfl le_rfl fun q p h _ => (System.runs_finish.mp h).2
  | reach callId accepted answer =>
      obtain ⟨provider, hreach, rfl⟩ := Option.map_eq_some_iff.mp hs
      exact .reached callId accepted answer provider rfl hreach rfl
  | deliveryWebhook svixId eventType emailId eventCreatedAt detail =>
      cases hs
      exact .of_quiet (quiet_recordDeliveryWebhook _ _ _ _ _ _ _)
  | operator request =>
      cases hs
      exact operator_effect request

end ResendConversation
