import ResendConversation.FinalizationCommits
import ResendConversation.ThreadRuns

/-! # Progress of a drain

`drainEmailOutbox` run alone.  A drain claims the first ready batch, or forms one of the waiting
entries, so it finds nothing only when there is nothing.  But a batch whose entries have all been
deleted with their conversation keeps its row: the drain then claims no message, and either
reports that or throws. -/

namespace ResendConversation

open Foundation Tx

variable {Digest : Type} {rt : Runtime Digest}

/-! ### Claims -/

/-- Neither a ready batch nor an unbatched entry of a pending message. -/
structure Database.Drained (db : Database Digest) (now : Time) : Prop where
  batches : ∀ b ∈ db.outboxBatches, b.ready now = false
  entries : ∀ e ∈ db.outboxEntries, e.batchId = none → db.messageIn e.messageId .pending = false

/-- The first ready batch, if there is one, has an entry. -/
def Database.FirstBatchFilled (db : Database Digest) (now : Time) : Prop :=
  ∀ b, readyBatch db now [] = some b → batchEntries db b.id ≠ []

theorem readyBatch_eq_none {db : Database Digest} {now : Time} :
    readyBatch db now [] = none ↔ ∀ b ∈ db.outboxBatches, b.ready now = false := by
  simp only [readyBatch, List.head?_eq_none_iff, List.eq_nil_iff_forall_not_mem,
    Table.mem_selectSorted]
  simp

theorem unbatchedEntries_eq_nil {db : Database Digest} {limit : ℕ} (hlimit : 1 ≤ limit) :
    unbatchedEntries db limit [] = [] ↔
      ∀ e ∈ db.outboxEntries, e.batchId = none → db.messageIn e.messageId .pending = false := by
  have hne : limit ≠ 0 := by omega
  rw [unbatchedEntries, List.map_eq_nil_iff, List.take_eq_nil_iff, or_iff_right hne]
  simp only [List.eq_nil_iff_forall_not_mem, Table.mem_selectSorted]
  simp

/-- The claim of a lone drain finds nothing only where there is nothing. -/
theorem Database.drained_iff {db : Database Digest} {now : Time} {limit : ℕ} (hlimit : 1 ≤ limit) :
    db.Drained now ↔ readyBatch db now [] = none ∧ unbatchedEntries db limit [] = [] := by
  rw [readyBatch_eq_none, unbatchedEntries_eq_nil hlimit]
  exact ⟨fun h => ⟨h.batches, h.entries⟩, fun h => ⟨h.1, h.2⟩⟩

/-- The entries that a new batch is formed of are in it. -/
theorem exists_mem_assigned {db : Database Digest} {limit : ℕ} {locked : List Uuid} (batchId : Uuid)
    (h : unbatchedEntries db limit locked ≠ []) :
    ∃ e ∈ db.outboxEntries.update
        (fun e => (unbatchedEntries db limit locked).contains e.messageId && e.batchId.isNone)
        (EmailOutboxEntry.assign batchId (unbatchedEntries db limit locked)), e.batchId =
          some batchId := by
  obtain ⟨id, hid⟩ := List.exists_mem_of_ne_nil _ h
  obtain ⟨e, he, rfl, hnone⟩ := mem_unbatchedEntries hid
  exact ⟨_, Table.mem_update.mpr ⟨e, he, if_pos (by simp [hid, hnone])⟩, rfl⟩

theorem Queue.loaded_nil_iff {db : Database Digest} (h : Queue rt db) {batchId : Uuid}
    {loaded : LoadedBatch Digest} (hl : Loaded db batchId loaded) :
    loaded.messages = [] ↔ batchEntries db batchId = [] := by
  rw [← List.map_eq_nil_iff (f := EmailMessage.id), h.loaded_messageIds hl, List.map_eq_nil_iff]

/-- What a claim finds: the first ready batch, else the waiting entries, else nothing. -/
inductive ClaimFinds (now : Time) (limit : ℕ) (locked : List Uuid) (db db' : Database Digest) :
    Option (Uuid × LoadedBatch Digest) → Prop
  | nothing (batches : readyBatch db now locked = none)
      (entries : unbatchedEntries (swept db) limit locked = []) :
        ClaimFinds now limit locked db db' none
  | batch {b : EmailOutboxBatch} {token : Uuid} {loaded : LoadedBatch Digest}
      (ready : readyBatch db now locked = some b) (loads : Loaded db' b.id loaded)
      (entries : db'.outboxEntries = (swept db).outboxEntries) :
      ClaimFinds now limit locked db db' (some (token, loaded))
  | entries {batchId token : Uuid} {loaded : LoadedBatch Digest}
      (batches : readyBatch db now locked = none)
      (nonempty : unbatchedEntries (swept db) limit locked ≠ []) (loads : Loaded db' batchId loaded)
      (entries : db'.outboxEntries = (swept db).outboxEntries.update
        (fun e => (unbatchedEntries (swept db) limit locked).contains e.messageId &&
          e.batchId.isNone)
        (EmailOutboxEntry.assign batchId (unbatchedEntries (swept db) limit locked))) :
      ClaimFinds now limit locked db db' (some (token, loaded))

theorem claimTransaction_finds {now : Time} {limit : ℕ} {locked : List Uuid}
    {db db' : Database Digest} {claim : Option (Uuid × LoadedBatch Digest)}
    (h : claimTransaction now limit locked db = .ok (claim, db')) :
    ClaimFinds now limit locked db db' claim := by
  simp only [claimTransaction, bind_eq_ok, freshId_eq_ok, modify_eq_ok, get_eq_ok] at h
  obtain ⟨_, _, ⟨rfl, rfl⟩, _, _, rfl, _, _, ⟨rfl, rfl⟩, h⟩ := h
  change _ = Except.ok (claim, db') at h
  -- the sweep leaves the batches alone
  cases hready : readyBatch (swept db) now locked with
  | some b =>
      rw [show readyBatch (deleteSettledEntries _) now locked = some b from hready] at h
      simp only [bind_eq_ok, leaseBatch, modify_eq_ok, pure_eq_ok] at h
      obtain ⟨_, _, rfl, loaded, _, hload, rfl, rfl⟩ := h
      obtain ⟨rfl, hl⟩ := loadBatch_eq_ok hload
      exact .batch hready hl rfl
  | none =>
      rw [show readyBatch (deleteSettledEntries _) now locked = none from hready] at h
      cases hids : unbatchedEntries (swept db) limit locked with
      | nil =>
          rw [show unbatchedEntries (deleteSettledEntries _) limit locked = [] from hids] at h
          obtain ⟨rfl, rfl⟩ := pure_eq_ok.mp h
          exact .nothing hready hids
      | cons id ids =>
          rw [show unbatchedEntries (deleteSettledEntries _) limit locked =
            id :: ids from hids] at h
          simp only [bind_eq_ok, createBatch, freshId_eq_ok, insertRow_eq_ok, modify_eq_ok,
            pure_eq_ok] at h
          obtain ⟨_, _, ⟨_, _, ⟨rfl, rfl⟩, _, _, ⟨table, -, rfl⟩, _, _, rfl, rfl, rfl⟩,
              loaded, _, hload,
            rfl, rfl⟩ := h
          obtain ⟨rfl, hl⟩ := loadBatch_eq_ok hload
          refine .entries hready (by rw [hids]; exact List.cons_ne_nil id ids) hl ?_
          rw [hids]
          rfl

/-- A lone claim takes no message if and only if the first ready batch has lost its entries,
and no batch only where there is nothing to take. -/
theorem Queue.claim_exact {db db' : Database Digest} {now : Time} {limit : ℕ}
    {claim : Option (Uuid × LoadedBatch Digest)} (h : Queue rt db) (hlimit : 1 ≤ limit)
    (hx : claimTransaction now limit [] db = .ok (claim, db')) :
    match claim with
    | none => db.Drained now
    | some (_, loaded) => ¬db.Drained now ∧ (loaded.messages ≠ [] ↔ db.FirstBatchFilled now) := by
  have hswept : (swept db).outboxEntries = db.outboxEntries := by rw [h.swept_eq]
  have hunbatched : unbatchedEntries (swept db) limit [] = unbatchedEntries db limit [] := by
    rw [h.swept_eq]
    rfl
  have h' : claim.isSome → Queue rt db' := by
    intro hsome
    rcases claimTransaction_eq_ok hx with ⟨rfl, -⟩ | ⟨loaded, -, hclaim⟩
    · cases hsome
    · exact h.of_batchClaim hclaim
  cases claimTransaction_finds hx with
  | nothing batches entries =>
      exact (Database.drained_iff hlimit).mpr ⟨batches, hunbatched ▸ entries⟩
  | @batch b token loaded ready loads entries =>
      have hentries : batchEntries db' b.id = batchEntries db b.id := by
        rw [batchEntries, entries, hswept, batchEntries]
      refine ⟨fun hd => ?_, ?_⟩
      · rw [((Database.drained_iff hlimit).mp hd).1] at ready
        cases ready
      · rw [Ne, (h' rfl).loaded_nil_iff loads, hentries]
        constructor
        · intro hne b' hb'
          obtain rfl : b = b' := Option.some.inj (ready.symm.trans hb')
          exact hne
        · exact fun hfilled => hfilled b ready
  | @entries batchId token loaded batches nonempty loads entries =>
      refine ⟨fun hd => nonempty (hunbatched ▸ ((Database.drained_iff hlimit).mp hd).2), ?_⟩
      refine iff_of_true (fun hnil => ?_) fun b hb => ?_
      · rw [(h' rfl).loaded_nil_iff loads] at hnil
        obtain ⟨e, he, hb⟩ := exists_mem_assigned batchId nonempty
        have hmem : e ∈ batchEntries db' batchId :=
          Table.mem_selectSorted.mpr ⟨entries ▸ he, by simp [hb]⟩
        rw [hnil] at hmem
        cases hmem
      · rw [batches] at hb
        cases hb

theorem BatchClaim.messages {db db' : Database Digest} {now : Time} {loaded : LoadedBatch Digest}
    (hc : BatchClaim now db db' loaded) : db'.messages = db.messages := by
  cases hc with
  | leased found ready db_eq loaded =>
      rw [db_eq]
      rfl
  | created entries nonempty inserted db_eq loaded =>
      rw [db_eq]
      rfl

/-- A claimed batch stands. -/
theorem BatchClaim.stands {db db' : Database Digest} {now : Time} {loaded : LoadedBatch Digest}
    {batch : ClaimedBatch Digest} (hc : BatchClaim now db db' loaded) (hq : Queue rt db')
    (hheld : BatchHeld db' batch) (hid : batch.id = loaded.batch.id)
    (htoken : batch.leaseToken = db.nextId) (hm : batch.messages = loaded.messages) :
    batch.Stands db' := by
  have hl := hc.loaded_eq
  refine ⟨⟨loaded.batch, Table.mem_of_get? hl.1, ClaimedBatch.owned_iff.mpr ⟨hid.symm, ?_⟩⟩,
    hheld.nodup, fun id hid' => ?_⟩
  · rw [htoken]
    have hmem := Table.mem_of_get? hl.1
    cases hc with
    | @leased b found ready db_eq loaded_eq =>
        have hrows : db'.outboxBatches = db.outboxBatches.update (fun r => r.id == b.id)
            (EmailOutboxBatch.lease now db.nextId) := by rw [db_eq]
        have hkey := Table.key_of_get? loaded_eq.1
        rw [hrows] at hmem
        obtain ⟨r, -, heq⟩ := Table.mem_update.mp hmem
        split at heq
        · rw [← heq]
          rfl
        next hr => exact absurd (by rw [heq, hkey]; exact beq_self_eq_true _) hr
    | created entries nonempty inserted db_eq loaded_eq =>
        have hkey := loaded_eq.1
        rw [db_eq] at hkey
        rw [Table.get?_of_insert? inserted,
          if_pos (show (newBatch now db.nextId (db.nextId + 1)).id =
            db.nextId + 1 from rfl)] at hkey
        rw [← Option.some.inj hkey]
        rfl
  · rw [ClaimedBatch.messageIds, hm] at hid'
    obtain ⟨m, hmem, rfl⟩ := List.mem_map.mp hid'
    refine ⟨m, ?_, hq.loaded_pending hl m hmem⟩
    rw [hl.2, List.mem_filterMap] at hmem
    obtain ⟨e, -, hget⟩ := hmem
    rw [Table.key_of_get? hget]
    exact hget

/-! ### A drain that runs alone -/

/-- The call that the process in the slot waits for. -/
def System.awaited (s : System Digest) (pid : ℕ) : Option Uuid :=
  (s.procs.get? pid).bind fun p => p.2.awaits.map Prod.fst

/-- Only the process `pid` takes steps, beside the clock and the provider.  It sees what came
of a call at the time that `seenAt` gives for it. -/
def Alone (pid : ℕ) (seenAt : Uuid → Time) (s : System Digest) : Action Digest → Prop
  | .run q c => q = pid ∧ c.locked = [] ∧ ∀ callId ∈ s.awaited pid, seenAt callId = s.now
  | .tick _ | .reach _ _ _ => True
  | _ => False

instance (pid : ℕ) (seenAt : Uuid → Time) (s : System Digest) (a : Action Digest) :
    Decidable (Alone pid seenAt s a) := by
  cases a <;> unfold Alone <;> infer_instance

/-- A call as its worker knows it, without the provider's answer. -/
def Provider.seen (p : Provider) (callId : Uuid) : Option ProviderCall :=
  (p.calls.get? callId).map fun call => { call with answer := none }

theorem Provider.seen_place (p : Provider) (call : ProviderCall) (k : Uuid) :
    (p.place call).seen k = if call.id = k then some
    { call with answer := none } else p.seen k := by
  unfold seen
  rw [get?_place]
  split
  · rfl
  · rfl

theorem Provider.seen_observe (p : Provider) (callId : Uuid) (o : Observation) (k : Uuid) :
    (p.observe callId o).seen k =
      (p.seen k).map fun call => if k = callId then { call with observed := some o } else call := by
  unfold seen
  rw [get?_observe]
  cases hk : p.calls.get? k with
  | none => rfl
  | some call =>
      have hid := Table.key_of_get? hk
      simp only [Option.map_some, hid]
      split
      · rfl
      · rw [← hid]

theorem Provider.seen_reach {p p' : Provider} {now : Time} {callId : Uuid}
    {accepted : Option (List JsString)} {answer : Observation}
    (h : p.reach now callId accepted answer = some p') (k : Uuid) : p'.seen k = p.seen k := by
  obtain ⟨call, hcall, -, -, -, hcalls⟩ := reach_eq_some h
  unfold seen
  rw [hcalls]
  split
  next heq =>
    subst heq
    rw [hcall]
    rfl
  next => rfl

theorem Provider.seen_of_mem {p : Provider} {call : ProviderCall} (h : call ∈ p.calls) :
    p.seen call.id = some { call with answer := none } := by
  rw [seen, Table.mem_iff_get?.mp h]
  rfl

theorem Provider.seen_eq_some {p : Provider} {k : Uuid} {x : ProviderCall} (h : p.seen k = some x) :
    ∃ call ∈ p.calls, call.id = k ∧ { call with answer := none } = x := by
  obtain ⟨call, hcall, heq⟩ := Option.map_eq_some_iff.mp h
  exact ⟨call, Table.mem_of_get? hcall, Table.key_of_get? hcall, heq⟩

/-- A call from `n` on was answered with one identifier for each of its messages. -/
def Provider.Answered (p : Provider) (n : Uuid) (ids : List JsString) : Prop :=
  ∃ call ∈ p.calls, n ≤ call.id ∧ call.observed = some (.sent ids) ∧
    ids.length = call.messageIds.length ∧ ids.any List.isEmpty = false

theorem Provider.answered_iff {p : Provider} {n : Uuid} {ids : List JsString} :
    p.Answered n ids ↔ ∃ k x, n ≤ k ∧ p.seen k = some x ∧ x.observed = some (.sent ids) ∧
      ids.length = x.messageIds.length ∧ ids.any List.isEmpty = false := by
  constructor
  · rintro ⟨call, hcall, hn, ho, hlength, hany⟩
    exact ⟨call.id, _, hn, seen_of_mem hcall, ho, hlength, hany⟩
  · rintro ⟨k, x, hn, hseen, ho, hlength, hany⟩
    obtain ⟨call, hcall, rfl, rfl⟩ := seen_eq_some hseen
    exact ⟨call, hcall, hn, ho, hlength, hany⟩

/-- The text that an attempt records of the error of its call is storable: the code of an error
that is final, or the part of it that is kept with an attempt that is made again. -/
def SendError.Recordable (seenAt windowStart : Time) (e : SendError) : Prop :=
  isChangedPayloadError e = false →
    if isRetryableError e then
      hasProviderWindowExpired seenAt windowStart = false →
        JsString.storable ((getErrorCode e).take 64) = true
    else (getErrorCode e).storable = true

/-- What the errors of the calls from `n` on leave to be recorded is storable. -/
def Provider.Recordable (p : Provider) (seenAt : Uuid → Time) (n : Uuid) : Prop :=
  ∀ call ∈ p.calls, n ≤ call.id → ∀ e, call.observed = some (.threw e) →
    e.Recordable (seenAt call.id) call.windowStart

theorem Provider.recordable_iff {p : Provider} {seenAt : Uuid → Time} {n : Uuid} :
    p.Recordable seenAt n ↔ ∀ k x, n ≤ k → p.seen k = some x → ∀ e, x.observed = some (.threw e) →
      e.Recordable (seenAt k) x.windowStart := by
  constructor
  · rintro h k x hn hseen e he
    obtain ⟨call, hcall, rfl, rfl⟩ := seen_eq_some hseen
    exact h call hcall hn e he
  · exact fun h call hcall hn e he => h call.id _ hn (seen_of_mem hcall) e he

/-- The code of an error of the worker itself is the name of the error. -/
theorem SendError.recordable_other {seenAt windowStart : Time} {name message : JsString}
    (h : name.storable = true) : (SendError.other name message).Recordable seenAt windowStart := by
  intro _
  rw [if_pos (show isRetryableError (.other name message) = true from rfl)]
  exact fun _ => JsString.storable_take 64 h

theorem scheduleBatchRetry_ne_accept (now : Time) (batch : ClaimedBatch Digest)
    (errorCode : JsString) (ids : List JsString) :
    scheduleBatchRetry now batch errorCode ≠ .accept ids := by
  unfold scheduleBatchRetry
  split
  · exact nofun
  · exact nofun

/-- A worker accepts exactly an answer with one identifier for each of its messages. -/
theorem decideBatch_eq_accept_iff {now : Time} {batch : ClaimedBatch Digest} {o : Observation}
    {ids : List JsString} : decideBatch now batch o = .accept ids ↔
      o = .sent ids ∧ ids.length = batch.messageIds.length ∧ ids.any List.isEmpty = false := by
  have hlength : batch.messageIds.length = batch.messages.length := List.length_map _
  cases o with
  | sent ids' =>
      simp only [decideBatch]
      by_cases hbad : ids'.length ≠ batch.messages.length ∨ ids'.any List.isEmpty = true
      · rw [if_pos hbad]
        refine iff_of_false (scheduleBatchRetry_ne_accept _ _ _ _) ?_
        rintro ⟨heq, hids, hany⟩
        cases heq
        rcases hbad with hne | hempty
        · exact hne (hids.trans hlength)
        · rw [hany] at hempty
          cases hempty
      · rw [if_neg hbad]
        rw [not_or, not_not, Bool.not_eq_true] at hbad
        simp only [BatchDecision.accept.injEq, Observation.sent.injEq]
        constructor
        · rintro rfl
          exact ⟨rfl, hbad.1.trans hlength.symm, hbad.2⟩
        · exact fun h => h.1
  | threw error =>
      refine iff_of_false ?_ nofun
      simp only [decideBatch]
      split_ifs
      · exact nofun
      · exact scheduleBatchRetry_ne_accept _ _ _ _
      · exact nofun

theorem scheduleBatchRetry_recordable_iff {now : Time} {batch : ClaimedBatch Digest}
    {errorCode : JsString} : (scheduleBatchRetry now batch errorCode).Recordable ↔
      (hasProviderWindowExpired now batch.firstAttemptAt = false →
        JsString.storable (errorCode.take 64) = true) := by
  unfold scheduleBatchRetry
  split
  next hexpired =>
    exact iff_of_true (by decide : batchWindowExpired.storable = true) (by simp [hexpired])
  next hopen => exact ⟨fun h _ => h, fun h => h (by simpa using hopen)⟩

/-- What a worker records of an answer is storable, but for the code of an error. -/
theorem decideBatch_recordable_iff {now : Time} {batch : ClaimedBatch Digest} {o : Observation} :
    (decideBatch now batch o).Recordable ↔
      ∀ e, o = .threw e → e.Recordable now batch.firstAttemptAt := by
  cases o with
  | sent ids =>
      refine iff_of_true ?_ nofun
      simp only [decideBatch]
      split
      · exact scheduleBatchRetry_recordable_iff.mpr fun _ => by decide
      · trivial
  | threw e =>
      simp only [decideBatch, Observation.threw.injEq, forall_eq', SendError.Recordable]
      cases hchanged : isChangedPayloadError e with
      | true => exact iff_of_true (by decide : JsString.storable _ = true) nofun
      | false =>
          simp only [Bool.false_eq_true, if_false, forall_const]
          split
          · exact scheduleBatchRetry_recordable_iff
          · exact Iff.rfl

/-- How far a drain with a claim has come, which took the database `db` and whose calls have
identifiers from `n` on. -/
inductive DrainStage (seenAt : Uuid → Time) (n : Uuid) (db : Database Digest)
    (batch : ClaimedBatch Digest) (pid : ℕ) (t : System Digest) : Prop
  | claimed (claimedAt : Time)
      (runs : t.Runs pid (.batchDrain (.working batch (.claimed claimedAt))))
      (db_eq : t.db = db) (silent : ∀ k, n ≤ k → t.provider.seen k = none)
  | calling (call : ProviderCall)
      (runs : t.Runs pid (.batchDrain (.working batch (.calling call.id)))) (own : n ≤ call.id)
      (db_eq : t.db = { db with nextId := db.nextId + 1 })
      (messages : call.messageIds = batch.messageIds)
        (start : call.windowStart = batch.firstAttemptAt)
      (called : ∀ k, n ≤ k → t.provider.seen k = if call.id = k then some call else none)
  | ending (decision : BatchDecision)
      (runs : t.Runs pid (.batchDrain (.working batch (.ending decision))))
      (db_eq : ∃ k, db.nextId ≤ k ∧ t.db = { db with nextId := k })
      (answered : ∀ ids, t.provider.Answered n ids ↔ decision = .accept ids)
      (recordable : t.provider.Recordable seenAt n ↔ decision.Recordable)
      (carries : ∀ k x, n ≤ k → t.provider.seen k = some x → x.messageIds = batch.messageIds)
  | returned (result : Except TxError OutboxDrainResult)
      (runs : t.Runs pid (.batchDrain (.returned result)))
      (claimed : ∀ r, result = .ok r → r.claimed = batch.messages.length)
      (commits : (∃ r, result = .ok r) ↔ t.provider.Recordable seenAt n ∧
        ∀ ids, t.provider.Answered n ids → batch.messages ≠ [] ∧ batch.Storable db ids)
      (carries : ∀ k x, n ≤ k → t.provider.seen k = some x → x.messageIds = batch.messageIds)

/-- Neither the clock nor the provider moves a drain. -/
theorem DrainStage.of_seen {seenAt : Uuid → Time} {n : Uuid} {db : Database Digest}
    {batch : ClaimedBatch Digest} {pid : ℕ} {t t' : System Digest}
    (h : DrainStage seenAt n db batch pid t) (hdb : t'.db = t.db) (hprocs : t'.procs = t.procs)
    (hseen : ∀ k, t'.provider.seen k = t.provider.seen k) :
    DrainStage seenAt n db batch pid t' := by
  have hanswered : ∀ ids, t'.provider.Answered n ids ↔ t.provider.Answered n ids := fun ids => by
    simp only [Provider.answered_iff, hseen]
  have hrecordable : t'.provider.Recordable seenAt n ↔ t.provider.Recordable seenAt n := by
    simp only [Provider.recordable_iff, hseen]
  have hruns : ∀ {p}, t.Runs pid p → t'.Runs pid p := fun {p} hp => by
    rw [System.Runs, hprocs]
    exact hp
  cases h with
  | claimed claimedAt runs db_eq silent =>
      exact .claimed claimedAt (hruns runs) (hdb.trans db_eq) fun k hk =>
        (hseen k).trans (silent k hk)
  | calling call runs own db_eq messages start called =>
      exact .calling call (hruns runs) own (hdb.trans db_eq) messages start
        fun k hk => (hseen k).trans (called k hk)
  | ending decision runs db_eq answered recordable carries =>
      exact .ending decision (hruns runs) (hdb ▸ db_eq)
        (fun ids => (hanswered ids).trans (answered ids))
        (hrecordable.trans recordable) fun k x hk hx => carries k x hk ((hseen k).symm.trans hx)
  | returned result runs claimed commits carries =>
      refine .returned result (hruns runs) claimed ?_
        fun k x hk hx => carries k x hk ((hseen k).symm.trans hx)
      rw [hrecordable]
      exact commits.trans (and_congr_right fun _ => forall_congr' fun ids => by rw [hanswered])

/-- Putting the counter forward changes nothing that a finalization depends on. -/
theorem ClaimedBatch.Stands.of_drawn {batch : ClaimedBatch Digest} {db : Database Digest}
    (h : batch.Stands db) (k : Uuid) : batch.Stands { db with nextId := k } :=
  ⟨h.owned, h.nodup, h.pending⟩

theorem ClaimedBatch.storable_drawn {batch : ClaimedBatch Digest} {db : Database Digest} {k : Uuid}
    {ids : List JsString} : batch.Storable { db with nextId := k } ids ↔ batch.Storable db ids :=
  ⟨fun h => ⟨h.nodup, h.free, h.storable⟩, fun h => ⟨h.nodup, h.free, h.storable⟩⟩

theorem Database.Sound.of_drawn {db : Database Digest} (h : db.Sound) {k : Uuid}
    (hk : db.nextId ≤ k) :
    Database.Sound { db with nextId := k } :=
  h.of_eq hk rfl rfl rfl rfl rfl (h.attachments_le hk)

/-- The window check of a worker, and its call. -/
theorem DrainStage.send {seenAt : Uuid → Time} {n : Uuid} {db : Database Digest}
    {batch : ClaimedBatch Digest} {pid : ℕ} {t : System Digest} {claimedAt : Time}
    (hn : n ≤ db.nextId) (hdb : t.db = db) (silent : ∀ k, n ≤ k → t.provider.seen k = none) :
    DrainStage seenAt n db batch pid (BatchWorker.send t pid batch claimedAt) := by
  have hending : ∀ decision : BatchDecision, (∀ ids, decision ≠ .accept ids) → decision.Recordable →
      DrainStage seenAt n db batch pid
        (t.become pid (.batchDrain (.working batch (.ending decision)))) := by
    intro decision hne hrecordable
    refine .ending decision (System.runs_become.mpr (.inl ⟨rfl, rfl⟩)) ⟨db.nextId, le_rfl, hdb⟩
      (fun ids => iff_of_false (fun ha => ?_) (hne ids)) (iff_of_true ?_ hrecordable)
      fun k x hk hx => ?_
    · obtain ⟨k, x, hk, hseen, -⟩ := Provider.answered_iff.mp ha
      rw [System.become_provider, silent k hk] at hseen
      cases hseen
    · refine Provider.recordable_iff.mpr fun k x hk hseen => ?_
      rw [System.become_provider, silent k hk] at hseen
      cases hseen
    · rw [System.become_provider, silent k hk] at hx
      cases hx
  unfold BatchWorker.send
  dsimp only
  split
  · exact hending _ nofun (by decide : batchWindowExpired.storable = true)
  · split
    · have hdrawn : n ≤ t.db.nextId := hdb ▸ hn
      refine .calling ⟨t.db.nextId, .conversationOutbox batch.id, batch.messageIds,
          batch.messages.map fun m => buildSendEmailInput m [], batch.firstAttemptAt,
          if 1 < batch.attemptCount then t.now else claimedAt, none, none⟩
        (System.runs_become.mpr (.inl ⟨rfl, rfl⟩)) hdrawn (by rw [← hdb]; rfl) rfl rfl
          fun k hk => ?_
      rw [System.become_provider, Provider.seen_place, silent k hk]
    · refine hending _ (fun ids heq => ?_) (decideBatch_recordable_iff.mpr ?_)
      · cases (decideBatch_eq_accept_iff.mp heq).1
      · rintro e ⟨⟩
        exact SendError.recordable_other (by decide)

/-- The observation of the call. -/
theorem DrainStage.observe {seenAt : Uuid → Time} {n : Uuid} {db : Database Digest}
    {batch : ClaimedBatch Digest} {pid : ℕ} {t : System Digest} {call : ProviderCall}
    (hnow : seenAt call.id = t.now) (own : n ≤ call.id)
    (hdb : t.db = { db with nextId := db.nextId + 1 })
    (messages : call.messageIds = batch.messageIds)
    (start : call.windowStart = batch.firstAttemptAt)
    (called : ∀ k, n ≤ k → t.provider.seen k = if call.id = k then some call else none)
    (o : Observation) :
    DrainStage seenAt n db batch pid ((t.observe call.id o).become pid
      (.batchDrain (.working batch (.ending (decideBatch t.now batch o))))) := by
  have hseen : ∀ k, n ≤ k → ((t.observe call.id o).become pid
      (.batchDrain (.working batch (.ending (decideBatch t.now batch o))))).provider.seen k =
        if call.id = k then some { call with observed := some o } else none := by
    intro k hk
    change (t.provider.observe call.id o).seen k = _
    rw [Provider.seen_observe, called k hk]
    by_cases hkc : call.id = k
    · simp only [if_pos hkc, Option.map_some, if_pos hkc.symm]
    · simp only [if_neg hkc, Option.map_none]
  have hobserved : ∀ {k x}, n ≤ k → ((t.observe call.id o).become pid
      (.batchDrain (.working batch (.ending (decideBatch t.now batch o))))).provider.seen k =
        some x → call.id = k ∧ { call with observed := some o } = x := by
    intro k x hk hx
    rw [hseen k hk] at hx
    split at hx
    next hkc => exact ⟨hkc, Option.some.inj hx⟩
    next => cases hx
  have hown := (hseen call.id own).trans (if_pos rfl)
  refine .ending _ (System.runs_become.mpr (.inl ⟨rfl, rfl⟩)) ⟨_, Nat.le_succ _, hdb⟩
    (fun ids => ?_)
    ?_ fun k x hk hx => ?_
  · rw [decideBatch_eq_accept_iff, Provider.answered_iff]
    constructor
    · rintro ⟨k, x, hk, hx, ho, hlength, hany⟩
      obtain ⟨-, rfl⟩ := hobserved hk hx
      exact ⟨Option.some.inj ho, messages ▸ hlength, hany⟩
    · rintro ⟨rfl, hlength, hany⟩
      exact ⟨call.id, _, own, hown, rfl, messages ▸ hlength, hany⟩
  · rw [decideBatch_recordable_iff, Provider.recordable_iff, ← start, ← hnow]
    constructor
    · rintro h e rfl
      exact h call.id _ own hown e rfl
    · intro h k x hk hx e he
      obtain ⟨rfl, rfl⟩ := hobserved hk hx
      exact h e (Option.some.inj he)
  · obtain ⟨-, rfl⟩ := hobserved hk hx
    exact messages

theorem drainResult_claimed (batch : ClaimedBatch Digest) (decision : BatchDecision) :
    (drainResult batch decision).claimed = batch.messages.length := by
  cases decision <;> rfl

/-- The transaction that ends the attempt. -/
theorem DrainStage.finish {seenAt : Uuid → Time} {n : Uuid} {db : Database Digest}
    {batch : ClaimedBatch Digest} {pid : ℕ} {t t' : System Digest} {c : Choice Digest}
    {decision : BatchDecision} (hs : db.Sound) (hstands : batch.Stands db)
    (hdb : ∃ k, db.nextId ≤ k ∧ t.db = { db with nextId := k })
    (answered : ∀ ids, t.provider.Answered n ids ↔ decision = .accept ids)
    (recordable : t.provider.Recordable seenAt n ↔ decision.Recordable)
    (carries : ∀ k x, n ≤ k → t.provider.seen k = some x → x.messageIds = batch.messageIds)
    (hstep : BatchWorker.step t pid c (.working batch (.ending decision)) = some t') :
    DrainStage seenAt n db batch pid t' := by
  obtain ⟨k, hk, hdb⟩ := hdb
  have hlength : ∀ ids, decision = .accept ids → ids.length = batch.messageIds.length := by
    intro ids hd
    obtain ⟨k, x, hk, hseen, -, hlength, -⟩ := Provider.answered_iff.mp ((answered ids).mpr hd)
    rw [hlength]
    exact congrArg List.length (carries k x hk hseen)
  have hcommits := @commits_finalizeBatch_iff Digest t.config t.now batch _ (hs.of_drawn hk)
    (hstands.of_drawn k) decision hlength
  simp only [ClaimedBatch.storable_drawn, ← answered, ← recordable] at hcommits
  rw [← hdb] at hcommits
  simp only [BatchWorker.step] at hstep
  rcases t.transact_cases (finalizeBatch t.config t.now batch decision) with
    ⟨u, db', hok, heq⟩ | ⟨e, heq⟩
  · rw [heq] at hstep
    cases hstep
    refine .returned _ (System.runs_become.mpr (.inl ⟨rfl, rfl⟩)) ?_ ?_ carries
    · rintro r ⟨⟩
      exact drainResult_claimed batch decision
    · exact iff_of_true ⟨_, rfl⟩ (hcommits.mp ⟨u, db', hok⟩)
  · have hne : ¬Commits (finalizeBatch t.config t.now batch decision) t.db := by
      rintro ⟨u, db', hok⟩
      unfold System.transact at heq
      rw [execute_of_ok hok] at heq
      cases heq
    rw [heq] at hstep
    cases hstep
    refine .returned _ (System.runs_become.mpr (.inl ⟨rfl, rfl⟩)) nofun ?_ carries
    exact iff_of_false nofun fun h => hne (hcommits.mpr h)

theorem System.awaited_of_runs {t : System Digest} {pid : ℕ} {p : Proc Digest} (h : t.Runs pid p) :
    t.awaited pid = p.awaits.map Prod.fst := by
  rw [awaited, show t.procs.get? pid = some (pid, p) from h]
  rfl

variable [DecidableEq Digest]

/-- A step of the drain, of the clock or of the provider. -/
theorem DrainStage.step {seenAt : Uuid → Time} {n : Uuid} {db : Database Digest}
    {batch : ClaimedBatch Digest} {pid : ℕ} {t t' : System Digest} {a : Action Digest}
    (hs : db.Sound) (hn : n ≤ db.nextId) (hstands : batch.Stands db)
    (h : DrainStage seenAt n db batch pid t) (halone : Alone pid seenAt t a)
    (hstep : ResendConversation.step rt t a = some t') :
    DrainStage seenAt n db batch pid t' := by
  cases a with
  | tick ms =>
      cases hstep
      exact h.of_seen rfl rfl fun _ => rfl
  | reach callId accepted answer =>
      obtain ⟨provider, hreach, rfl⟩ := Option.map_eq_some_iff.mp hstep
      exact h.of_seen rfl rfl fun k => Provider.seen_reach hreach k
  | run q c =>
      obtain ⟨rfl, -, hnow⟩ := halone
      obtain ⟨⟨q', p⟩, hp, hstep⟩ := Option.bind_eq_some_iff.mp hstep
      have hq := Table.key_of_get? hp
      dsimp only at hq
      subst hq
      cases h with
      | claimed claimedAt runs db_eq silent =>
          cases runs.unique hp
          cases hstep
          exact .send hn db_eq silent
      | calling call runs own db_eq messages start called =>
          have hseenAt := hnow call.id (by rw [System.awaited_of_runs runs]; rfl)
          cases runs.unique hp
          simp only [runProc, BatchWorker.step] at hstep
          split at hstep
          · cases hstep
          · cases hstep
            exact .observe hseenAt own db_eq messages start called _
      | ending decision runs db_eq answered recordable carries =>
          cases runs.unique hp
          exact .finish (c := c) hs hstands db_eq answered recordable carries hstep
      | returned result runs claimed commits carries =>
          cases runs.unique hp
          cases hstep
  | reconfigure => cases halone
  | start => cases halone
  | crash => cases halone
  | deliveryWebhook => cases halone
  | operator => cases halone

/-- What the claim of a lone drain leaves behind. -/
inductive DrainStarted (now : Time) (pid : ℕ) (s s₁ : System Digest) : Prop
  | nothing (drained : s.db.Drained now)
      (runs : s₁.Runs pid (.batchDrain (.returned (.ok emptyDrainResult))))
      (provider : s₁.provider = s.provider)
  | batch (batch : ClaimedBatch Digest) (busy : ¬s.db.Drained now)
      (filled : batch.messages ≠ [] ↔ s.db.FirstBatchFilled now) (stands : batch.Stands s₁.db)
      (messages : s₁.db.messages = s.db.messages) (drawn : s.db.nextId ≤ s₁.db.nextId)
      (runs : s₁.Runs pid (.batchDrain (.working batch (.claimed now))))
      (provider : s₁.provider = s.provider)

/-- The claim of a lone drain. -/
theorem Coherent.drainStarted {s s₁ : System Digest} {pid limit : ℕ} {c : Choice Digest}
    (h : Coherent rt s) (hlocked : c.locked = [])
    (hstep : step rt s (.start pid (.batchDrain limit) c) = some s₁) :
    DrainStarted (s.clock c.readAt) pid s s₁ := by
  simp only [step, startJob] at hstep
  split at hstep
  next hfree =>
    split at hstep
    next hlimit =>
      cases hstep
      unfold BatchWorker.start claimOutboxBatch
      rcases s.transact_cases (claimTransaction (s.clock c.readAt) limit c.locked) with
        ⟨claim, db', hok, heq⟩ | ⟨e, heq⟩
      · rw [hlocked] at hok
        simp only [heq]
        have hexact := h.queue.claim_exact hlimit.1 hok
        rcases claimTransaction_eq_ok hok with ⟨rfl, rfl⟩ | ⟨loaded, rfl, hclaim⟩
        · exact .nothing hexact (System.runs_become.mpr (.inl ⟨rfl, rfl⟩)) rfl
        · have hqueue := h.queue.of_batchClaim hclaim
          have horigins := hclaim.frame.origins (fun _ v _ => .refl v) h.origins
          obtain ⟨batch, hcheck, hid, htoken, -, -, hmessages⟩ :=
            hqueue.checkClaim_eq_ok s.db.nextId hclaim.loaded_eq
          have hheld := hqueue.batchHeld horigins hclaim.loaded_eq hid hmessages
          simp only [hcheck]
          exact .batch batch hexact.1 (hmessages ▸ hexact.2)
            (hclaim.stands hqueue hheld hid htoken hmessages) hclaim.messages hclaim.frame.nextId_le
            (System.runs_become.mpr (.inl ⟨rfl, rfl⟩)) rfl
      · obtain ⟨claim, hclaim⟩ := h.claimOutboxBatch_eq_ok limit c
        simp only [claimOutboxBatch, heq] at hclaim
        cases hclaim
    next => cases hstep
  next => cases hstep

/-- A call of `drainEmailOutbox` that runs alone: it claims in `s`, with the clock at `now`, sees
what came of its call at the time that `seenAt` gives, and has returned or thrown `result`
in `s'`. -/
def LoneDrain (rt : Runtime Digest) (limit : ℕ) (now : Time) (seenAt : Uuid → Time)
    (s s' : System Digest) (result : Except TxError OutboxDrainResult) : Prop :=
  ∃ pid c s₁, c.locked = [] ∧ s.clock c.readAt = now ∧
    step rt s (.start pid (.batchDrain limit) c) = some s₁ ∧
    Run (step rt) (Alone pid seenAt) s₁ s' ∧ s'.Runs pid (.batchDrain (.returned result))

/-- A drain from `db` that did not throw, and claimed nothing only where there was nothing. -/
def ReportsExactly (db : Database Digest) (now : Time) (result : Except TxError OutboxDrainResult) :
    Prop :=
  ∃ r, result = .ok r ∧ (r.claimed = 0 → db.Drained now)

/-- What the provider answered to the calls that were placed between `s` and `s'` can be stored:
distinct identifiers that the column takes and that no other message has already, and error
codes that the column takes where they are recorded. -/
structure AnswersStorable (seenAt : Uuid → Time) (s s' : System Digest) : Prop where
  identifiers : ∀ call ∈ s'.provider.calls, s.db.nextId ≤ call.id →
    ∀ ids, call.observed = some (.sent ids) → ids.length = call.messageIds.length →
      ids.any List.isEmpty = false → ids.Nodup ∧ ids.all JsString.storable = true ∧
        ∀ m ∈ s.db.messages, m.id ∉ call.messageIds → ∀ id ∈ ids, m.resendEmailId ≠ some id
  codes : s'.provider.Recordable seenAt s.db.nextId

omit [DecidableEq Digest] in
theorem answersStorable_iff {seenAt : Uuid → Time} {s s' : System Digest}
    {batch : ClaimedBatch Digest} {db : Database Digest} (hmessages : db.messages = s.db.messages)
    (carries : ∀ k x, s.db.nextId ≤ k → s'.provider.seen k = some x →
      x.messageIds = batch.messageIds) :
    AnswersStorable seenAt s s' ↔ s'.provider.Recordable seenAt s.db.nextId ∧
      ∀ ids, s'.provider.Answered s.db.nextId ids → batch.Storable db ids := by
  have hids : ∀ call ∈ s'.provider.calls, s.db.nextId ≤ call.id →
      call.messageIds = batch.messageIds :=
    fun call hcall hn =>
      carries call.id { call with answer := none } hn (Provider.seen_of_mem hcall)
  constructor
  · rintro ⟨h, hcodes⟩
    refine ⟨hcodes, ?_⟩
    rintro ids ⟨call, hcall, hn, ho, hlength, hany⟩
    obtain ⟨hnodup, hstorable, hfree⟩ := h call hcall hn ids ho hlength hany
    rw [hids call hcall hn, ← hmessages] at hfree
    exact ⟨hnodup, hfree, hstorable⟩
  · rintro ⟨hcodes, h⟩
    refine ⟨fun call hcall hn ids ho hlength hany => ?_, hcodes⟩
    obtain ⟨hnodup, hfree, hstorable⟩ := h ids ⟨call, hcall, hn, ho, hlength, hany⟩
    rw [← hids call hcall hn, hmessages] at hfree
    exact ⟨hnodup, hstorable, hfree⟩

omit [DecidableEq Digest] in
/-- The provider has seen no call of a drain that has not started. -/
theorem Calls.silent {s : System Digest} (h : Calls s) {k : Uuid} (hk : s.db.nextId ≤ k) :
    s.provider.seen k = none := by
  unfold Provider.seen
  cases hcall : s.provider.calls.get? k with
  | none => rfl
  | some call =>
      have hlt := h.drawn call (Table.mem_of_get? hcall)
      rw [Table.key_of_get? hcall] at hlt
      exact absurd hk hlt.not_ge

/-- A drain that has returned stays so, and no call is placed. -/
theorem returned_alone {n : Uuid} {pid : ℕ} {seenAt : Uuid → Time} {t t' : System Digest}
    {p : Proc Digest} (hreturned : ∀ u c, runProc rt u pid c p = none)
    (hrun : Run (step rt) (Alone pid seenAt) t t') (hruns : t.Runs pid p)
    (hsilent : ∀ k, n ≤ k → t.provider.seen k = none) :
    t'.Runs pid p ∧ ∀ k, n ≤ k → t'.provider.seen k = none := by
  refine hrun.invariant (I := fun u => u.Runs pid p ∧ ∀ k, n ≤ k → u.provider.seen k = none)
    ⟨hruns, hsilent⟩ ?_
  rintro u a u' ⟨hruns, hseen⟩ halone hstep
  cases a with
  | tick ms =>
      cases hstep
      exact ⟨hruns, hseen⟩
  | reach callId accepted answer =>
      obtain ⟨provider, hreach, rfl⟩ := Option.map_eq_some_iff.mp hstep
      exact ⟨hruns, fun k hk => (Provider.seen_reach hreach k).trans (hseen k hk)⟩
  | run q c =>
      obtain rfl : q = pid := halone.1
      obtain ⟨_, hp, hstep⟩ := Option.bind_eq_some_iff.mp hstep
      obtain rfl := Option.some.inj (hp.symm.trans hruns)
      rw [hreturned] at hstep
      cases hstep
  | reconfigure => cases halone
  | start => cases halone
  | crash => cases halone
  | deliveryWebhook => cases halone
  | operator => cases halone

omit [DecidableEq Digest] in
theorem answersStorable_of_silent {seenAt : Uuid → Time} {s s' : System Digest}
    (h : ∀ k, s.db.nextId ≤ k → s'.provider.seen k = none) : AnswersStorable seenAt s s' := by
  have hnone : ∀ call ∈ s'.provider.calls, ¬s.db.nextId ≤ call.id := by
    intro call hcall hn
    have hseen := h call.id hn
    rw [Provider.seen_of_mem hcall] at hseen
    cases hseen
  exact ⟨fun call hcall hn => absurd hn (hnone call hcall),
    fun call hcall hn => absurd hn (hnone call hcall)⟩

/-- A drain that finds nothing returns so; one with a claim returns a claimed message if and
only if its batch had an entry and its answers could be stored. -/
theorem LoneDrain.outcome {limit : ℕ} {now : Time} {seenAt : Uuid → Time} {s s' : System Digest}
    {result : Except TxError OutboxDrainResult} (hinj : Function.Injective rt.hashSendRequest)
    (h : Reachable rt s) (hd : LoneDrain rt limit now seenAt s s' result) :
    (s.db.Drained now ∧ result = .ok emptyDrainResult ∧ s.db.FirstBatchFilled now ∧
      AnswersStorable seenAt s s') ∨
    (¬s.db.Drained now ∧ ((∃ r, result = .ok r ∧ r.claimed ≠ 0) ↔
      s.db.FirstBatchFilled now ∧ AnswersStorable seenAt s s')) := by
  obtain ⟨pid, c, s₁, hlocked, rfl, hstep, hrun, hreturned⟩ := hd
  have hsilent : ∀ k, s.db.nextId ≤ k → s.provider.seen k = none := fun k hk => h.calls.silent hk
  have hreach₁ : Reachable rt s₁ := by
    obtain ⟨config, start, hrun₀⟩ := h
    exact ⟨config, start, hrun₀.tail trivial hstep⟩
  cases (h.coherent hinj).drainStarted hlocked hstep with
  | nothing drained runs provider =>
      left
      obtain ⟨hruns, hseen⟩ := returned_alone (n := s.db.nextId) (fun _ _ => rfl) hrun runs
        (by rwa [provider])
      cases hruns.unique hreturned
      refine ⟨drained, rfl, fun b hb => ?_, answersStorable_of_silent hseen⟩
      rw [readyBatch_eq_none.mpr drained.batches] at hb
      cases hb
  | batch batch busy filled stands messages drawn runs provider =>
      right
      have hstage : DrainStage seenAt s.db.nextId s₁.db batch pid s' :=
        hrun.invariant (.claimed _ runs rfl (by rwa [provider])) fun t a t' hI halone hstep' =>
          hI.step hreach₁.threaded.sound drawn stands halone hstep'
      refine ⟨busy, ?_⟩
      cases hstage with
      | returned result' runs' claimed commits carries =>
          cases runs'.unique hreturned
          rw [answersStorable_iff messages carries, ← filled]
          constructor
          · rintro ⟨r, hr, hne⟩
            obtain ⟨hcodes, hall⟩ := commits.mp ⟨r, hr⟩
            refine ⟨fun hnil => hne ?_, hcodes, fun ids ha => (hall ids ha).2⟩
            rw [claimed r hr, hnil]
            rfl
          · rintro ⟨hne, hcodes, hall⟩
            obtain ⟨r, hr⟩ := commits.mpr ⟨hcodes, fun ids ha => ⟨hne, hall ids ha⟩⟩
            refine ⟨r, hr, fun hzero => hne ?_⟩
            rw [claimed r hr] at hzero
            exact List.eq_nil_of_length_eq_zero hzero
      | claimed claimedAt runs' => cases runs'.unique hreturned
      | calling call runs' => cases runs'.unique hreturned
      | ending decision runs' => cases runs'.unique hreturned

/-! ### A lone drain returns -/

section Returns

variable {pid : ℕ} {batch : ClaimedBatch Digest} {t : System Digest} {now : Time}

variable (rt) in
theorem System.Runs.step {w : BatchWorker Digest} (h : t.Runs pid (.batchDrain w))
    (c : Choice Digest) :
    ResendConversation.step rt t (.run pid c) = w.step t pid c := by
  simp only [ResendConversation.step]
  rw [show t.procs.get? pid = some (pid, .batchDrain w) from h]
  rfl

omit [DecidableEq Digest] in
theorem alone_run {c : Choice Digest} (hc : c.locked = []) (hnow : t.now = now) :
    Alone pid (fun _ => now) t (.run pid c) := ⟨rfl, hc, fun _ _ => hnow.symm⟩

variable (rt pid now t) in
/-- The drain can return from here, while the clock stands still. -/
def CanReturn : Prop :=
  ∃ t' result, Run (step rt) (Alone pid fun _ => now) t t' ∧
    t'.Runs pid (.batchDrain (.returned result))

theorem CanReturn.of_step {t' : System Digest} {c : Choice Digest} (hc : c.locked = [])
    (hnow : t.now = now) (hstep : step rt t (.run pid c) = some t') (h : CanReturn rt pid t' now) :
    CanReturn rt pid t now := by
  obtain ⟨u, result, hrun, hreturned⟩ := h
  exact ⟨u, result, hrun.head (alone_run hc hnow) hstep, hreturned⟩

theorem canReturn_returned {result : Except TxError OutboxDrainResult} :
    CanReturn rt pid (t.become pid (.batchDrain (.returned result))) now :=
  ⟨_, result, Run.refl _, System.runs_become.mpr (.inl ⟨rfl, rfl⟩)⟩

theorem canReturn_ending {decision : BatchDecision} (hnow : t.now = now)
    (h : t.Runs pid (.batchDrain (.working batch (.ending decision)))) :
    CanReturn rt pid t now := by
  have hstep := h.step rt {}
  simp only [BatchWorker.step] at hstep
  split at hstep
  · exact .of_step rfl hnow hstep canReturn_returned
  · exact .of_step rfl hnow hstep canReturn_returned

/-- The worker gives up its wait, if the provider never answers. -/
theorem canReturn_calling {callId : Uuid} (hnow : t.now = now)
    (h : t.Runs pid (.batchDrain (.working batch (.calling callId)))) : CanReturn rt pid t now :=
  .of_step rfl hnow (h.step rt { lost := some ([], []) })
    (canReturn_ending hnow (System.runs_become.mpr (.inl ⟨rfl, rfl⟩)))

theorem canReturn_claimed {claimedAt : Time} (hnow : t.now = now)
    (h : t.Runs pid (.batchDrain (.working batch (.claimed claimedAt)))) :
    CanReturn rt pid t now := by
  have hstep := h.step rt {}
  simp only [BatchWorker.step, BatchWorker.send] at hstep
  split at hstep
  · exact .of_step rfl hnow hstep (canReturn_ending hnow (System.runs_become.mpr (.inl ⟨rfl, rfl⟩)))
  · split at hstep
    · exact .of_step rfl hnow hstep
        (canReturn_calling hnow (System.runs_become.mpr (.inl ⟨rfl, rfl⟩)))
    · exact .of_step rfl hnow hstep
        (canReturn_ending hnow (System.runs_become.mpr (.inl ⟨rfl, rfl⟩)))

end Returns

/-- Every lone drain can return, whatever the outbox. -/
theorem Coherent.exists_loneDrain {s : System Digest} (h : Coherent rt s) {limit : ℕ}
    (hlimit : 1 ≤ limit ∧ limit ≤ 100) :
    ∃ seenAt s' result, LoneDrain rt limit s.now seenAt s s' result := by
  obtain ⟨pid, hpid⟩ := Infinite.exists_notMem_finset (s.procs.rows.map Prod.fst).toFinset
  have hfree : s.procs.get? pid = none := by
    refine Table.get?_eq_none.mpr fun p hp heq => hpid ?_
    exact List.mem_toFinset.mpr (List.mem_map.mpr ⟨p, hp, heq⟩)
  have hstep : step rt s (.start pid (.batchDrain limit) {}) =
      some (BatchWorker.start s pid limit {}) := by
    simp only [step, startJob]
    rw [if_pos hfree, if_pos hlimit]
  have hclock : s.clock none = s.now := min_self s.now
  cases h.drainStarted (rfl : ({} : Choice Digest).locked = []) hstep with
  | nothing drained runs provider =>
      exact ⟨fun _ => s.now, _, _, pid, {}, _, rfl, hclock, hstep, Run.refl _, runs⟩
  | batch batch busy filled stands messages drawn runs provider =>
      obtain ⟨s', result, hrun, hreturned⟩ := canReturn_claimed rfl runs
      exact ⟨_, s', result, pid, {}, _, rfl, hclock, hstep, hrun, hreturned⟩

end ResendConversation
