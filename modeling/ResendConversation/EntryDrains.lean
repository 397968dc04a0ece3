import ResendConversation.DrainProgress

/-! # Drains of the attachment lane

`drainAttachmentOutbox` run alone.  It goes from entry to entry until none is due, and each of its
attempts ends: an acceptance that fails is decided again, so a drain throws only on an error
code that it cannot record. -/

namespace ResendConversation

open Foundation Tx

variable {Digest : Type} {rt : Runtime Digest}

/-! ### Claims -/

/-- No entry of a pending message is due. -/
def Database.EntriesDrained (db : Database Digest) (now : Time) : Prop :=
  ∀ e ∈ db.attachmentOutboxEntries, e.nextAttemptAt ≤ now → e.leaseUntil.all (· ≤ now) = true →
    db.messageIn e.messageId .pending = false

/-- The sweep of a claim leaves the entries of pending messages. -/
theorem mem_sweptAttachments {db : Database Digest} {e : EmailAttachmentOutboxEntry}
    (he : e ∈ db.attachmentOutboxEntries) (hpending : db.messageIn e.messageId .pending = true) :
    e ∈ (sweptAttachments db).attachmentOutboxEntries := by
  refine Table.mem_delete.mpr ⟨he, ?_⟩
  obtain ⟨m, hm, hstate⟩ := (Option.any_eq_true _ _).mp hpending
  have hm' : db.messages.get? e.messageId = some m := hm
  simpa [hm'] using hstate

theorem readyEntry_swept_eq_none {db : Database Digest} {now : Time} :
    readyEntry (sweptAttachments db) now [] = none ↔ db.EntriesDrained now := by
  simp only [readyEntry, List.head?_eq_none_iff, List.eq_nil_iff_forall_not_mem,
    Table.mem_selectSorted, Bool.and_eq_true, List.contains_nil, Bool.not_false, decide_eq_true_eq,
    and_true, not_and]
  constructor
  · intro h e he hdue hfree
    by_contra hpending
    rw [Bool.not_eq_false] at hpending
    exact h e (mem_sweptAttachments he hpending) ⟨hpending, hdue⟩ hfree
  · rintro h e he ⟨hpending, hdue⟩ hfree
    have hnot := h e (Table.mem_delete.mp he).1 hdue hfree
    rw [show db.messageIn e.messageId .pending = true from hpending] at hnot
    cases hnot

theorem commits_claimEntry (now : Time) (locked : List Uuid) (db : Database Digest) :
    Commits (claimEntry now locked) db := by
  refine .bind (commits_freshId _) fun token db₁ h₁ => .bind (.modify _ _) fun _ db₂ h₂ =>
    .bind (.get _) fun _ db₃ h₃ => ?_
  obtain ⟨rfl, rfl⟩ := get_eq_ok.mp h₃
  cases hready : readyEntry db₂ now locked with
  | none => exact .pure _ _
  | some e =>
      have hmem := (Table.mem_selectSorted.mp (List.mem_of_head? hready)).2
      simp only [Bool.and_eq_true] at hmem
      obtain ⟨m, hm, -⟩ := (Option.any_eq_true _ _).mp hmem.1.1.1
      refine .bind (.modify _ _) fun _ db₄ h₄ => .bind (.orThrow ?_ _ _) fun _ _ _ => .pure _ _
      exact Option.isSome_of_mem hm

/-- The claim of an entry finds nothing only where nothing is due; else it leases one. -/
theorem claimEntry_exact (db : Database Digest) (now : Time) :
    (db.EntriesDrained now ∧ claimEntry now [] db = .ok (none, sweptAttachments db)) ∨
      (¬db.EntriesDrained now ∧ ∃ entry e db', claimEntry now [] db = .ok (some entry, db') ∧
        EntryClaim now db db' entry e) := by
  obtain ⟨claim, db', hok⟩ := commits_claimEntry now [] db
  rw [← readyEntry_swept_eq_none]
  rcases claimEntry_eq_ok hok with ⟨rfl, rfl, hnone⟩ | ⟨entry, e, rfl, hready, hclaim⟩
  · exact .inl ⟨hnone, hok⟩
  · exact .inr ⟨by rw [hready]; exact nofun, entry, e, db', hok, hclaim⟩

/-- A claimed entry carries the token of its claim. -/
theorem EntryClaim.count_owned {now : Time} {db db' : Database Digest} {entry : ClaimedEntry Digest}
    {e : EmailAttachmentOutboxEntry} (h : EntryClaim now db db' entry e) :
    db'.attachmentOutboxEntries.count entry.owned = 1 := by
  have hid := Table.key_of_get? h.message
  have hrows : db'.attachmentOutboxEntries = (sweptAttachments db).attachmentOutboxEntries.update
      (fun r => r.messageId == e.messageId) (EmailAttachmentOutboxEntry.lease now db.nextId) := by
    rw [h.db_eq]
  have hrow : EmailAttachmentOutboxEntry.lease now db.nextId e ∈ db'.attachmentOutboxEntries := by
    rw [hrows, Table.mem_update]
    exact ⟨e, h.found, if_pos (beq_self_eq_true e.messageId)⟩
  refine Table.count_eq_length (List.nodup_singleton entry.message.id) (fun r hr => ?_)
    fun k hk => ?_
  · rw [List.mem_singleton, ClaimedEntry.owned_iff]
    refine ⟨fun ho => ho.1, fun hrid => ⟨hrid, ?_⟩⟩
    rw [hrows] at hr
    obtain ⟨r₀, -, rfl⟩ := Table.mem_update.mp hr
    split at hrid
    next hkey =>
      rw [if_pos hkey, h.leaseToken]
      rfl
    next hkey => exact absurd (beq_iff_eq.mpr (hrid.trans hid)) hkey
  · rw [List.mem_singleton] at hk
    exact ⟨_, hrow, hid.symm.trans hk.symm⟩

/-! ### Attempts -/

/-- The text that the decision records is storable. -/
def EntryDecision.Recordable : EntryDecision → Prop
  | .accept _ => True
  | .finalize _ detail => detail.storable = true
  | .retry errorCode => JsString.storable (errorCode.take 64) = true

theorem decideEntryError_recordable {now : Time} {entry : ClaimedEntry Digest} {e : SendError}
    (h : e.Recordable now entry.firstAttemptAt) : (decideEntryError now entry e).Recordable := by
  unfold decideEntryError
  split
  · change (js "Resend rejected a changed payload for the persisted entry key").storable = true
    decide
  next hchanged =>
    have htext := h (by simpa using hchanged)
    split
    next hretry =>
      rw [if_pos hretry] at htext
      split
      · exact (by decide : entryWindowExpired.storable = true)
      next hopen => exact htext (by simpa using hopen)
    next hretry =>
      rw [if_neg hretry] at htext
      exact JsString.storable_append.mpr
        ⟨JsString.storable_append.mpr ⟨by decide, htext⟩, by decide⟩

/-- What a worker records of an answer is storable, but for the code of an error. -/
theorem decideEntry_recordable {now : Time} {entry : ClaimedEntry Digest} {o : Observation}
    (h : ∀ e, o = .threw e → e.Recordable now entry.firstAttemptAt) :
    (decideEntry now entry o).Recordable := by
  have hinvalid : (decideEntryError now entry invalidEmailId).Recordable :=
    decideEntryError_recordable (SendError.recordable_other (by decide))
  unfold decideEntry
  cases o with
  | threw e => exact decideEntryError_recordable (h e rfl)
  | sent ids =>
      match ids with
      | [] => exact hinvalid
      | [id] =>
          simp only [sendResult]
          by_cases hempty : List.isEmpty id = true
          · rw [if_pos hempty]
            exact hinvalid
          · rw [if_neg hempty]
            trivial
      | _ :: _ :: _ => exact hinvalid

section Attempts

variable {config : Config} {now : Time} {entry : ClaimedEntry Digest} {db : Database Digest}

theorem commits_deleteOwnedEntry (h : db.attachmentOutboxEntries.count entry.owned = 1) :
    Commits (deleteOwnedEntry entry) db := by
  refine .bind (.get _) fun _ _ hget => .bind (.ensure ?_ _ _) fun _ _ _ => .modify _ _
  obtain ⟨rfl, rfl⟩ := get_eq_ok.mp hget
  rw [h]
  rfl

/-- An attempt that was not accepted ends under its lease, if it can record why. -/
theorem commits_endEntry (h : db.attachmentOutboxEntries.count entry.owned = 1)
    {decision : EntryDecision} (hne : ∀ id, decision ≠ .accept id) (hr : decision.Recordable) :
    Commits (endEntry config now entry decision) db := by
  cases decision with
  | accept id => exact absurd rfl (hne id)
  | finalize state detail =>
      refine .bind ⟨(), db, checkText_eq_ok.mpr ⟨hr, rfl⟩⟩ fun _ _ htexts =>
        .bind (commits_updateMessages _ _ _ _) fun _ _ hupdated => commits_deleteOwnedEntry ?_
      obtain ⟨-, rfl⟩ := checkText_eq_ok.mp htexts
      obtain ⟨-, rfl⟩ := updateMessages_eq_ok.mp hupdated
      exact h
  | retry errorCode =>
      refine .bind ⟨(), db, checkText_eq_ok.mpr ⟨hr, rfl⟩⟩ fun _ _ htexts =>
        .bind (.get _) fun _ _ hget => .bind (.ensure ?_ _ _) fun _ _ _ => .modify _ _
      obtain ⟨-, rfl⟩ := checkText_eq_ok.mp htexts
      obtain ⟨rfl, rfl⟩ := get_eq_ok.mp hget
      rw [h]
      rfl

theorem nextId_le_of_endEntry {decision : EntryDecision} {db' : Database Digest} {u : Unit}
    (h : endEntry config now entry decision db = .ok (u, db')) : db.nextId ≤ db'.nextId := by
  rcases endEntry_eq_ok h with hfinal | ⟨-, hretry⟩
  · exact hfinal.nextId_le
  · obtain ⟨_, _, rfl⟩ := hretry.db_eq
    exact le_rfl

end Attempts

/-! ### A drain that runs alone -/

/-- How far a drain has come after its first claim; its calls have identifiers from `n` on. -/
inductive EntryStage (seenAt : Uuid → Time) (n : Uuid) (pid : ℕ) (t : System Digest) : Prop
  | idle (remaining : ℕ) (result : AttachmentOutboxDrainResult)
      (runs : t.Runs pid (.entryDrain (.idle remaining result))) (claimed : result.claimed ≠ 0)
  | claimed (remaining : ℕ) (result : AttachmentOutboxDrainResult) (entry : ClaimedEntry Digest)
      (claimedAt : Time)
      (runs : t.Runs pid (.entryDrain (.working remaining result entry (.claimed claimedAt))))
      (owned : t.db.attachmentOutboxEntries.count entry.owned = 1)
  | calling (remaining : ℕ) (result : AttachmentOutboxDrainResult) (entry : ClaimedEntry Digest)
      (call : ProviderCall)
      (runs : t.Runs pid (.entryDrain (.working remaining result entry (.calling call.id))))
      (owned : t.db.attachmentOutboxEntries.count entry.owned = 1) (own : n ≤ call.id)
      (start : call.windowStart = entry.firstAttemptAt)
        (called : t.provider.seen call.id = some call)
  | ending (remaining : ℕ) (result : AttachmentOutboxDrainResult) (entry : ClaimedEntry Digest)
      (decision : EntryDecision)
      (runs : t.Runs pid (.entryDrain (.working remaining result entry (.ending decision))))
      (owned : t.db.attachmentOutboxEntries.count entry.owned = 1)
      (recordable : t.provider.Recordable seenAt n → decision.Recordable)
  | returned (result : Except TxError AttachmentOutboxDrainResult)
      (runs : t.Runs pid (.entryDrain (.returned result)))
      (claimed : ∀ r, result = .ok r → r.claimed ≠ 0)
      (commits : t.provider.Recordable seenAt n → ∃ r, result = .ok r)

section Stages

variable {seenAt : Uuid → Time} {n : Uuid} {pid : ℕ} {t : System Digest}

/-- Neither the clock nor the provider moves a drain. -/
theorem EntryStage.of_seen {t' : System Digest} (h : EntryStage seenAt n pid t) (hdb : t'.db = t.db)
    (hprocs : t'.procs = t.procs) (hseen : ∀ k, t'.provider.seen k = t.provider.seen k) :
    EntryStage seenAt n pid t' := by
  have hrecordable : t'.provider.Recordable seenAt n ↔ t.provider.Recordable seenAt n := by
    simp only [Provider.recordable_iff, hseen]
  have hruns : ∀ {p}, t.Runs pid p → t'.Runs pid p := fun {p} hp => by
    rw [System.Runs, hprocs]
    exact hp
  cases h with
  | idle remaining result runs claimed => exact .idle remaining result (hruns runs) claimed
  | claimed remaining result entry claimedAt runs owned =>
      exact .claimed remaining result entry claimedAt (hruns runs) (hdb ▸ owned)
  | calling remaining result entry call runs owned own start called =>
      exact .calling remaining result entry call (hruns runs) (hdb ▸ owned) own start
        ((hseen call.id).trans called)
  | ending remaining result entry decision runs owned recordable =>
      exact .ending remaining result entry decision (hruns runs) (hdb ▸ owned)
        fun h => recordable (hrecordable.mp h)
  | returned result runs claimed commits =>
      exact .returned result (hruns runs) claimed fun h => commits (hrecordable.mp h)

/-- The claim of the next entry. -/
theorem entryWorker_claim (t : System Digest) (pid remaining : ℕ)
    (result : AttachmentOutboxDrainResult) {c : Choice Digest} (hlocked : c.locked = []) :
    (t.db.EntriesDrained (t.clock c.readAt) ∧ EntryWorker.claim t pid remaining result c =
      { t with db := sweptAttachments t.db }.become pid (.entryDrain (.returned (.ok result)))) ∨
    (¬t.db.EntriesDrained (t.clock c.readAt) ∧ ∃ entry e db',
      EntryClaim (t.clock c.readAt) t.db db' entry e ∧ EntryWorker.claim t pid remaining result c =
        ({ t with db := db' }.issue (.entry entry.message.id) entry.leaseToken).become pid
          (.entryDrain (.working remaining result entry (.claimed (t.clock c.readAt))))) := by
  unfold EntryWorker.claim System.transact
  rw [hlocked]
  rcases claimEntry_exact t.db (t.clock c.readAt) with
    ⟨hdrained, hok⟩ | ⟨hbusy, entry, e, db', hok, hclaim⟩
  · rw [execute_of_ok hok]
    exact .inl ⟨hdrained, rfl⟩
  · rw [execute_of_ok hok]
    exact .inr ⟨hbusy, entry, e, db', hclaim, rfl⟩

theorem EntryStage.claim {remaining : ℕ} {result : AttachmentOutboxDrainResult} {c : Choice Digest}
    (hlocked : c.locked = []) (hn : n ≤ t.db.nextId)
    (hbusy : result.claimed ≠ 0 ∨ ¬t.db.EntriesDrained (t.clock c.readAt)) :
    n ≤ (EntryWorker.claim t pid remaining result c).db.nextId ∧
      EntryStage seenAt n pid (EntryWorker.claim t pid remaining result c) := by
  rcases entryWorker_claim t pid remaining result hlocked with
    ⟨hdrained, heq⟩ | ⟨-, entry, e, db', hclaim, heq⟩
  · have hclaimed : result.claimed ≠ 0 := hbusy.resolve_right fun h => h hdrained
    rw [heq]
    refine ⟨hn.trans (Nat.le_succ _), .returned _ (System.runs_become.mpr (.inl ⟨rfl, rfl⟩)) ?_
      fun _ => ⟨_, rfl⟩⟩
    rintro r ⟨⟩
    exact hclaimed
  · rw [heq]
    exact ⟨hn.trans hclaim.frame.nextId_le,
      .claimed _ _ _ _ (System.runs_become.mpr (.inl ⟨rfl, rfl⟩)) hclaim.count_owned⟩

/-- The window check of an attempt, its attachments, and its call. -/
theorem EntryStage.send {remaining : ℕ} {result : AttachmentOutboxDrainResult}
    {entry : ClaimedEntry Digest} {claimedAt : Time} {fails : Bool} (hn : n ≤ t.db.nextId)
    (owned : t.db.attachmentOutboxEntries.count entry.owned = 1) :
    n ≤ (EntryWorker.send t pid entry claimedAt fails fun phase =>
        .entryDrain (.working remaining result entry phase)).db.nextId ∧
      EntryStage seenAt n pid (EntryWorker.send t pid entry claimedAt fails fun phase =>
        .entryDrain (.working remaining result entry phase)) := by
  have hending : ∀ decision : EntryDecision, decision.Recordable →
      EntryStage seenAt n pid
        (t.become pid (.entryDrain (.working remaining result entry (.ending decision)))) :=
    fun decision hrecordable => .ending _ _ _ _ (System.runs_become.mpr (.inl ⟨rfl, rfl⟩)) owned
      fun _ => hrecordable
  have hskip : ∀ error : SendError,
      (∃ name message, error = .other name message ∧ name.storable = true) →
      EntryStage seenAt n pid (t.become pid (.entryDrain (.working remaining result entry
        (.ending (decideEntryError t.now entry error))))) := by
    rintro _ ⟨name, message, rfl, hname⟩
    exact hending _ (decideEntryError_recordable (SendError.recordable_other hname))
  unfold EntryWorker.send
  split
  · exact ⟨hn, hending _ (by decide : entryWindowExpired.storable = true)⟩
  · split
    next error herror => exact ⟨hn, hskip error (EntryWorker.buildSendAttachments_error herror)⟩
    next attachments _ =>
      split
      · refine ⟨hn.trans (Nat.le_succ _),
          .calling remaining result entry (entryCall t entry claimedAt attachments)
          (System.runs_become.mpr (.inl ⟨rfl, rfl⟩)) owned hn rfl ?_⟩
        exact (Provider.seen_place _ _ _).trans (if_pos rfl)
      · exact ⟨hn, hskip _ ⟨_, _, rfl, by decide⟩⟩

/-- The observation of the call. -/
theorem EntryStage.observe {remaining : ℕ} {result : AttachmentOutboxDrainResult}
    {entry : ClaimedEntry Digest} {call : ProviderCall} (hnow : seenAt call.id = t.now)
    (owned : t.db.attachmentOutboxEntries.count entry.owned = 1) (own : n ≤ call.id)
    (start : call.windowStart = entry.firstAttemptAt) (called : t.provider.seen call.id = some call)
    (o : Observation) :
    EntryStage seenAt n pid ((t.observe call.id o).become pid
      (.entryDrain (.working remaining result entry (.ending (decideEntry t.now entry o))))) := by
  refine .ending _ _ _ _ (System.runs_become.mpr (.inl ⟨rfl, rfl⟩)) owned fun hcodes => ?_
  refine decideEntry_recordable ?_
  rintro e rfl
  have hseen : (t.provider.observe call.id (.threw e)).seen call.id =
      some { call with observed := some (.threw e) } := by
    rw [Provider.seen_observe, called, Option.map_some, if_pos rfl]
  have hcode := Provider.recordable_iff.mp hcodes call.id _ own hseen e rfl
  rwa [hnow, start] at hcode

/-- The transaction that ends an attempt. -/
theorem EntryStage.finish {remaining : ℕ} {result : AttachmentOutboxDrainResult}
    {entry : ClaimedEntry Digest} {decision : EntryDecision} (hn : n ≤ t.db.nextId)
    (owned : t.db.attachmentOutboxEntries.count entry.owned = 1)
    (recordable : t.provider.Recordable seenAt n → decision.Recordable) :
    n ≤ (EntryWorker.finish t pid remaining result entry decision).db.nextId ∧
      EntryStage seenAt n pid (EntryWorker.finish t pid remaining result entry decision) := by
  unfold EntryWorker.finish
  rcases t.transact_cases (endEntry t.config t.now entry decision) with
    ⟨u, db', hok, heq⟩ | ⟨e, heq⟩
  · simp only [heq]
    exact ⟨hn.trans (nextId_le_of_endEntry hok),
      .idle _ _ (System.runs_become.mpr (.inl ⟨rfl, rfl⟩)) (Nat.succ_ne_zero _)⟩
  · simp only [heq]
    split
    · -- the failed acceptance is decided again
      obtain ⟨name, message, herror, hname⟩ := EntryWorker.asSendError_eq e
      rw [herror]
      exact ⟨hn, .ending _ _ _ _ (System.runs_become.mpr (.inl ⟨rfl, rfl⟩)) owned fun _ =>
        decideEntryError_recordable (SendError.recordable_other hname)⟩
    next hne =>
      refine ⟨hn, .returned _ (System.runs_become.mpr (.inl ⟨rfl, rfl⟩)) nofun fun hcodes => ?_⟩
      have hcommits : Commits (endEntry t.config t.now entry decision) t.db :=
        commits_endEntry owned hne (recordable hcodes)
      obtain ⟨u, db', hok⟩ := hcommits
      unfold System.transact at heq
      rw [execute_of_ok hok] at heq
      cases heq

variable [DecidableEq Digest]

/-- A step of the drain, of the clock or of the provider. -/
theorem EntryStage.step {t' : System Digest} {a : Action Digest} (hn : n ≤ t.db.nextId)
    (h : EntryStage seenAt n pid t) (halone : Alone pid seenAt t a)
    (hstep : ResendConversation.step rt t a = some t') :
    n ≤ t'.db.nextId ∧ EntryStage seenAt n pid t' := by
  cases a with
  | tick ms =>
      cases hstep
      exact ⟨hn, h.of_seen rfl rfl fun _ => rfl⟩
  | reach callId accepted answer =>
      obtain ⟨provider, hreach, rfl⟩ := Option.map_eq_some_iff.mp hstep
      exact ⟨hn, h.of_seen rfl rfl fun k => Provider.seen_reach hreach k⟩
  | run q c =>
      obtain ⟨rfl, hlocked, hnow⟩ := halone
      obtain ⟨⟨q', p⟩, hp, hstep⟩ := Option.bind_eq_some_iff.mp hstep
      have hq := Table.key_of_get? hp
      dsimp only at hq
      subst hq
      cases h with
      | idle remaining result runs claimed =>
          cases runs.unique hp
          cases remaining with
          | zero =>
              cases hstep
              refine ⟨hn, .returned _ (System.runs_become.mpr (.inl ⟨rfl, rfl⟩)) ?_
                fun _ => ⟨_, rfl⟩⟩
              rintro r ⟨⟩
              exact claimed
          | succ remaining =>
              cases hstep
              exact EntryStage.claim hlocked hn (.inl claimed)
      | claimed remaining result entry claimedAt runs owned =>
          cases runs.unique hp
          cases hstep
          exact EntryStage.send hn owned
      | calling remaining result entry call runs owned own start called =>
          have hseenAt := hnow call.id (by rw [System.awaited_of_runs runs]; rfl)
          cases runs.unique hp
          simp only [runProc, EntryWorker.step] at hstep
          split at hstep
          · cases hstep
          · cases hstep
            exact ⟨hn, .observe hseenAt owned own start called _⟩
      | ending remaining result entry decision runs owned recordable =>
          cases runs.unique hp
          cases hstep
          exact EntryStage.finish hn owned recordable
      | returned result runs claimed commits =>
          cases runs.unique hp
          cases hstep
  | reconfigure => cases halone
  | start => cases halone
  | crash => cases halone
  | deliveryWebhook => cases halone
  | operator => cases halone

end Stages

/-- A call of `drainAttachmentOutbox` that runs alone: its first claim is in `s`, with the clock at
`now`, it sees what came of its calls at the times that `seenAt` gives, and it has returned or
thrown `result` in `s'`. -/
def LoneEntryDrain [DecidableEq Digest] (rt : Runtime Digest) (limit : ℕ) (now : Time)
    (seenAt : Uuid → Time) (s s' : System Digest)
    (result : Except TxError AttachmentOutboxDrainResult) :
    Prop :=
  ∃ pid c₀ c s₁ s₂, step rt s (.start pid (.entryDrain limit) c₀) = some s₁ ∧ c.locked = [] ∧
    s.clock c.readAt = now ∧ step rt s₁ (.run pid c) = some s₂ ∧
    Run (step rt) (Alone pid seenAt) s₂ s' ∧ s'.Runs pid (.entryDrain (.returned result))

/-- A drain that finds no due entry claims nothing and places no call; any other claims an entry,
and throws only on an error code that it cannot record. -/
theorem LoneEntryDrain.outcome [DecidableEq Digest] {limit : ℕ} {now : Time} {seenAt : Uuid → Time}
    {s s' : System Digest} {result : Except TxError AttachmentOutboxDrainResult} (h : Calls s)
    (hd : LoneEntryDrain rt limit now seenAt s s' result) :
    (s.db.EntriesDrained now ∧ (∃ r, result = .ok r ∧ r.claimed = 0) ∧
      s'.provider.Recordable seenAt s.db.nextId) ∨
    (¬s.db.EntriesDrained now ∧ (∀ r, result = .ok r → r.claimed ≠ 0) ∧
      (s'.provider.Recordable seenAt s.db.nextId → ∃ r, result = .ok r)) := by
  obtain ⟨pid, c₀, c, s₁, s₂, hstart, hlocked, rfl, hclaim, hrun, hreturned⟩ := hd
  simp only [step, startJob] at hstart
  split at hstart
  next hfree =>
    split at hstart
    next hlimit =>
      obtain ⟨remaining, rfl⟩ : ∃ remaining, limit = remaining + 1 := ⟨limit - 1, by omega⟩
      cases hstart
      have hidle : (s.become pid (.entryDrain (.idle (remaining + 1) {}))).Runs pid
        (.entryDrain (.idle (remaining + 1) {})) := System.runs_become.mpr (.inl ⟨rfl, rfl⟩)
      obtain ⟨p, hp, hclaim⟩ := Option.bind_eq_some_iff.mp hclaim
      obtain rfl := Option.some.inj (hp.symm.trans hidle)
      cases hclaim
      have hfirst := entryWorker_claim (s.become pid (.entryDrain (.idle (remaining + 1) {}))) pid
        remaining {} hlocked
      by_cases hdrained : s.db.EntriesDrained (s.clock c.readAt)
      · left
        obtain ⟨-, heq⟩ := hfirst.resolve_right fun h => h.1 hdrained
        rw [heq] at hrun
        obtain ⟨hruns, hsilent⟩ := returned_alone (n := s.db.nextId) (fun _ _ => rfl) hrun
          (System.runs_become.mpr (.inl ⟨rfl, rfl⟩)) fun k hk => h.silent hk
        cases hruns.unique hreturned
        exact ⟨hdrained, ⟨_, rfl, rfl⟩, (answersStorable_of_silent hsilent).codes⟩
      · right
        have hstage := hrun.invariant
          (I := fun t => s.db.nextId ≤ t.db.nextId ∧ EntryStage seenAt s.db.nextId pid t)
          (EntryStage.claim (t := s.become pid (.entryDrain (.idle (remaining + 1) {})))
            hlocked le_rfl (.inr hdrained))
          fun t a t' hI halone hstep => hI.2.step hI.1 halone hstep
        refine ⟨hdrained, ?_⟩
        cases hstage.2 with
        | returned result' runs claimed commits =>
            cases runs.unique hreturned
            exact ⟨claimed, commits⟩
        | idle remaining result' runs => cases runs.unique hreturned
        | claimed remaining result' entry claimedAt runs => cases runs.unique hreturned
        | calling remaining result' entry call runs => cases runs.unique hreturned
        | ending remaining result' entry decision runs => cases runs.unique hreturned
    next => cases hstart
  next => cases hstart

end ResendConversation
