import ResendConversation.Coherence
import ResendConversation.DrainProgress

/-! # Provider identifiers of accepted messages

All three send lanes record the provider's identifier in the update that accepts a message: in
every reachable state an accepted message has one. -/

namespace ResendConversation

open Foundation

variable {Digest : Type} {rt : Runtime Digest} {db db' : Database Digest}

/-- Accepted messages have their provider identifier. -/
def Database.AcceptedIds (db : Database Digest) : Prop :=
  ∀ id v, db.view? id = some v → v.state = .accepted → v.resendEmailId.isSome

/-- A rewritten view is that of an accepted message with its identifier, or of another message. -/
theorem Frame.acceptedIds {φ : Uuid → SendView Digest → SendView Digest} (h : Frame φ db db')
    (hφ : ∀ id v, db.view? id = some v → (φ id v).state = .accepted → φ id v = v ∨
      (φ id v).resendEmailId.isSome) (hids : db.AcceptedIds) : db'.AcceptedIds := by
  intro id v' hv' haccepted
  cases hv : db.view? id with
  | none =>
      obtain ⟨-, -, hinbound⟩ := h.fresh id v' hv' hv
      rw [hinbound.state] at haccepted
      cases haccepted
  | some v =>
      obtain rfl : v' = φ id v := Option.some.inj (hv'.symm.trans (h.view id v hv))
      rcases hφ id v hv haccepted with heq | hsome
      · rw [heq] at haccepted ⊢
        exact hids id v hv haccepted
      · exact hsome

theorem Background.acceptedIds (h : Background db db') (hids : db.AcceptedIds) : db'.AcceptedIds :=
  h.toFrame.acceptedIds (fun _ _ _ _ => .inl rfl) hids

theorem Stored.acceptedIds {ctx : SendContext Digest} {id : Uuid} {v : SendView Digest}
    (h : Stored ctx db db' id v) (hids : db.AcceptedIds) : db'.AcceptedIds := by
  intro k w hw haccepted
  cases hk : db.view? k with
  | some u =>
      obtain rfl : w = u := Option.some.inj (hw.symm.trans (h.view k u hk))
      exact hids k w hk haccepted
  | none =>
      rcases h.fresh k w hw hk with rfl | ⟨-, -, hinbound⟩
      · rw [h.stored] at hw
        cases hw
        rw [h.intended.state] at haccepted
        cases haccepted
      · rw [hinbound.state] at haccepted
        cases haccepted

theorem ConversationDeleted.acceptedIds {c : Uuid} (h : ConversationDeleted c db db')
    (hids : db.AcceptedIds) :
    db'.AcceptedIds := by
  intro id v hv haccepted
  obtain ⟨m, hm, -, rfl⟩ := h.view_of_view hv
  exact hids id m.sendView (Database.view?_of_get? hm) haccepted

/-! ### Rewritten views -/

theorem onMessage_accepted {id : Uuid} {f : SendView Digest → SendView Digest}
    (hf : ∀ v, (f v).state = .accepted → f v = v ∨ (f v).resendEmailId.isSome) (k : Uuid)
    (v : SendView Digest) (h : (onMessage id f k v).state = .accepted) :
    onMessage id f k v = v ∨ (onMessage id f k v).resendEmailId.isSome := by
  unfold onMessage at h ⊢
  split at h
  next hk =>
    rw [if_pos hk]
    exact hf v h
  next hk =>
    rw [if_neg hk]
    exact .inl rfl

theorem SendView.thrown_accepted (error : SendError) (v : SendView Digest)
    (h : (v.thrown error).state = .accepted) :
    v.thrown error = v ∨ (v.thrown error).resendEmailId.isSome := by
  simp only [SendView.thrown] at h
  split at h
  · cases h
  · cases h

theorem SendView.expired_accepted (v : SendView Digest) (h : v.expired.state = .accepted) :
    v.expired = v ∨ v.expired.resendEmailId.isSome := by
  unfold SendView.expired at h ⊢
  split at h
  · cases h
  next hstate =>
    rw [if_neg hstate]
    exact .inl rfl

theorem SendView.settled_accepted (result : Except SendError JsString) (v : SendView Digest)
    (h : (SendView.settled result v).state = .accepted) :
    SendView.settled result v = v ∨ (SendView.settled result v).resendEmailId.isSome := by
  cases result with
  | ok id => exact .inr rfl
  | error error => exact SendView.thrown_accepted error v h

theorem BatchDecision.apply_accepted {batch : ClaimedBatch Digest} {decision : BatchDecision}
    (hlength : ∀ ids, decision = .accept ids → ids.length = batch.messageIds.length) (id : Uuid)
    (v : SendView Digest) (h : (decision.apply batch id v).state = .accepted) :
    decision.apply batch id v = v ∨ (decision.apply batch id v).resendEmailId.isSome := by
  unfold BatchDecision.apply at h ⊢
  split at h
  next hp =>
    rw [if_pos hp]
    cases decision with
    | accept ids =>
        rw [Bool.and_eq_true, List.contains_iff_mem] at hp
        have hidx := List.idxOf_lt_length_iff.mpr hp.1
        rw [← hlength ids rfl] at hidx
        refine .inr ?_
        simp [BatchDecision.endView, acceptedId, hidx]
    | fail errorCode => cases h
    | indeterminate detail => cases h
    | retry errorCode => exact .inl rfl
  next hp =>
    rw [if_neg hp]
    exact .inl rfl

theorem EntryDecision.apply_accepted {entry : ClaimedEntry Digest} {decision : EntryDecision}
    (hproper : decision.Proper) (id : Uuid) (v : SendView Digest)
    (h : (decision.apply entry id v).state = .accepted) :
    decision.apply entry id v = v ∨ (decision.apply entry id v).resendEmailId.isSome := by
  unfold EntryDecision.apply at h ⊢
  split at h
  next hp =>
    rw [if_pos hp]
    cases decision with
    | accept resendEmailId => exact .inr rfl
    | finalize state detail =>
        rcases hproper with rfl | rfl
        · cases h
        · cases h
    | retry errorCode => exact .inl rfl
  next hp =>
    rw [if_neg hp]
    exact .inl rfl

/-! ### Steps -/

/-- A worker accepts with one identifier for each message of its batch, and ends its entry in a
proper state. -/
structure Proc.Accounts (p : Proc Digest) : Prop where
  batch : ∀ batch ids, p = .batchDrain (.working batch (.ending (.accept ids))) →
    ids.length = batch.messageIds.length
  entry : ∀ remaining result entry decision,
    p = .entryDrain (.working remaining result entry (.ending decision)) → decision.Proper

theorem Proc.Accounts.of_idle {p : Proc Digest} (h : p.sends = false) : p.Accounts where
  batch := by
    rintro batch ids rfl
    simp [Proc.sends, Proc.batch] at h
  entry := by
    rintro remaining result entry decision rfl
    simp [Proc.sends, Proc.entry] at h

theorem Proc.Accounts.of_send (h : SendHandler Digest) : (Proc.send h).Accounts :=
  ⟨by simp, by simp⟩

theorem Proc.Accounts.of_batch {batch : ClaimedBatch Digest} {phase : BatchPhase Digest}
    (h : ∀ ids, phase = .ending (.accept ids) → ids.length = batch.messageIds.length) :
    (Proc.batchDrain (.working batch phase)).Accounts where
  batch := by
    intro batch' ids heq
    cases heq
    exact h ids rfl
  entry := by simp

theorem Proc.Accounts.of_entry {remaining : ℕ} {result : AttachmentOutboxDrainResult}
    {entry : ClaimedEntry Digest} {phase : EntryPhase Digest}
    (h : ∀ decision, phase = .ending decision → decision.Proper) :
    (Proc.entryDrain (.working remaining result entry phase)).Accounts where
  batch := by simp
  entry := by
    intro remaining' result' entry' decision heq
    cases heq
    exact h decision rfl

/-- Accepted messages have their identifiers, and the workers are going to keep it so. -/
structure System.Accounted (s : System Digest) : Prop where
  ids : s.db.AcceptedIds
  procs : ∀ pid p, s.Runs pid p → p.Accounts

variable {s s' : System Digest}

theorem System.Accounted.of_become {t : System Digest} {pid : ℕ} {p : Proc Digest} (h : s.Accounted)
    (hids : t.db.AcceptedIds) (hprocs : t.procs = s.procs) (hp : p.Accounts) :
    (t.become pid p).Accounted where
  ids := hids
  procs := by
    intro q p' hq
    rcases System.runs_of_become hprocs hp q p' hq with hold | hnew
    · exact h.procs q p' hold
    · exact hnew

theorem System.Accounted.of_retires (h : s.Accounted) (hids : s'.db.AcceptedIds)
    (hretires : ∀ pid p, s'.Runs pid p → p.sends = true → s.Runs pid p) : s'.Accounted where
  ids := hids
  procs := by
    intro pid p hp
    cases hsends : p.sends with
    | true => exact h.procs pid p (hretires pid p hp hsends)
    | false => exact .of_idle hsends

theorem Effect.accounted [DecidableEq Digest] {a : Action Digest} (h : s.Accounted)
    (he : Effect rt s a s') :
    s'.Accounted := by
  cases he with
  | quiet passive provider leases objects now retires =>
      exact h.of_retires (passive.toBackground.acceptedIds h.ids) fun pid p hp hsends =>
        retires pid p hp (.inl hsends)
  | filed background provider leases now retires =>
      exact h.of_retires (background.acceptedIds h.ids) retires
  | reached callId accepted answer provider action reach eq =>
      subst eq
      exact ⟨h.ids, h.procs⟩
  | deleted c db' action deletion eq =>
      subst eq
      exact ⟨deletion.acceptedIds h.ids, h.procs⟩
  | stored pid c handler reopened db' id p action runs reopens stores next eq =>
      subst eq
      obtain ⟨⟨v, hstored⟩, -⟩ := stores
      refine h.of_become (hstored.acceptedIds h.ids) rfl ?_
      split at next
      next => exact .of_idle next.1
      next =>
        rw [next]
        exact .of_send _
  | engaged pid c handler m action runs found hash sync eq =>
      subst eq
      exact h.of_become h.ids rfl (.of_send _)
  | reopening pid c handler conversation action runs found topic eq =>
      subst eq
      exact h.of_become h.ids rfl (.of_send _)
  | expiring pid c handler id action runs phase eq =>
      subst eq
      exact h.of_become h.ids rfl (.of_send _)
  | resumed pid c handler m action runs phase found window eq =>
      subst eq
      exact h.of_become h.ids rfl (.of_send _)
  | prepared pid c handler d attachments action runs phase eq =>
      subst eq
      exact h.of_become h.ids rfl (.of_send _)
  | expired pid c handler id db' p action runs phase rewrite next eq =>
      subst eq
      refine h.of_become (rewrite.toFrame.acceptedIds (fun k v _ hk => ?_) h.ids) rfl
        (.of_idle next.1)
      exact onMessage_accepted SendView.expired_accepted k v hk
  | called pid c handler d attachments m action runs phase free found pending eq =>
      subst eq
      exact h.of_become h.ids rfl (.of_send _)
  | refused pid c handler d attachments m error db' p action runs phase free found pending cause
      rewrite next eq =>
      subst eq
      refine h.of_become (rewrite.toFrame.acceptedIds (fun k v _ hk => ?_) h.ids) rfl
        (.of_idle next.1)
      exact onMessage_accepted (SendView.thrown_accepted error) k v hk
  | settled pid c handler d m callId observation db' p action runs phase waits observed
      rewrite next eq =>
      subst eq
      refine h.of_become ?_ rfl (.of_idle next.1)
      rcases rewrite with rfl | rewrite
      · exact h.ids
      · refine rewrite.toFrame.acceptedIds (fun k v _ hk => ?_) h.ids
        exact onMessage_accepted (SendView.settled_accepted _) k v hk
  | batchSwept pid p next eq =>
      subst eq
      exact h.of_become h.ids rfl (.of_idle next.1)
  | batchClaimed pid c loaded db' p claim free next eq =>
      subst eq
      refine h.of_become (claim.frame.acceptedIds (fun _ _ _ _ => .inl rfl) h.ids) rfl ?_
      rw [next]
      split
      · exact .of_batch (by simp)
      · exact .of_idle rfl
  | batchSkipped pid c batch claimedAt decision action runs decided eq =>
      subst eq
      refine h.of_become h.ids rfl (.of_batch fun ids hphase => ?_)
      rw [BatchPhase.ending.injEq] at hphase
      rcases decided with hskip | hskip
      · rw [hskip] at hphase
        cases hphase
      · rw [hskip, decideBatch_eq_accept_iff] at hphase
        cases hphase.1
  | batchCalled pid c batch claimedAt action runs window eq =>
      subst eq
      exact h.of_become h.ids rfl (.of_batch (by simp))
  | batchObserved pid c batch callId observation action runs observed eq =>
      subst eq
      refine h.of_become h.ids rfl (.of_batch fun ids hphase => ?_)
      rw [BatchPhase.ending.injEq, decideBatch_eq_accept_iff] at hphase
      exact hphase.2.1
  | batchFinalized pid c batch decision db' p action runs finalized next eq =>
      subst eq
      refine h.of_become (finalized.toFrame.acceptedIds (fun k v _ hk => ?_) h.ids) rfl
        (.of_idle next.1)
      refine BatchDecision.apply_accepted (fun ids hdecision => ?_) k v hk
      subst hdecision
      exact (h.procs pid _ runs).batch batch ids rfl
  | batchRescheduled pid c batch decision db' p action runs rescheduled next eq =>
      subst eq
      exact h.of_become (rescheduled.frame.acceptedIds (fun _ _ _ _ => .inl rfl) h.ids) rfl
        (.of_idle next.1)
  | entrySwept pid p next eq =>
      subst eq
      exact h.of_become h.ids rfl (.of_idle next.1)
  | entryClaimed pid c remaining result entry e db' action runs claim eq =>
      subst eq
      exact h.of_become (claim.frame.acceptedIds (fun _ _ _ _ => .inl rfl) h.ids) rfl
        (.of_entry (by simp))
  | entrySkipped pid c remaining result entry claimedAt decision action runs decided eq =>
      subst eq
      refine h.of_become h.ids rfl (.of_entry fun decision' hphase => ?_)
      cases hphase
      rcases decided with rfl | ⟨name, message, rfl⟩
      · exact .inr rfl
      · exact decideEntryError_proper _ _ _
  | entryCalled pid c remaining result entry claimedAt attachments action runs window eq =>
      subst eq
      exact h.of_become h.ids rfl (.of_entry (by simp))
  | entryObserved pid c remaining result entry callId observation action runs observed eq =>
      subst eq
      refine h.of_become h.ids rfl (.of_entry fun decision' hphase => ?_)
      cases hphase
      exact decideEntry_proper _ _ _
  | entryFinalized pid c remaining result entry decision db' p action runs finalized next eq =>
      subst eq
      refine h.of_become (finalized.toFrame.acceptedIds (fun k v _ hk => ?_) h.ids) rfl
        (.of_idle next.1)
      exact EntryDecision.apply_accepted
        ((h.procs pid _ runs).entry remaining result entry decision rfl) k v hk
  | entryRescheduled pid c remaining result entry decision db' p action runs rescheduled next eq =>
      subst eq
      exact h.of_become (rescheduled.frame.acceptedIds (fun _ _ _ _ => .inl rfl) h.ids) rfl
        (.of_idle next.1)
  | entryRedecided pid c remaining result entry decision name message action runs eq =>
      subst eq
      refine h.of_become h.ids rfl (.of_entry fun decision' hphase => ?_)
      cases hphase
      exact decideEntryError_proper _ _ _

/-- In every reachable state an accepted message has its provider identifier. -/
theorem Reachable.accepted_ids [DecidableEq Digest] (h : Reachable rt s) :
    ∀ m ∈ s.db.messages, m.state = .accepted → m.resendEmailId.isSome := by
  obtain ⟨config, now, hrun⟩ := h
  have haccounted : s.Accounted := by
    refine hrun.invariant (I := System.Accounted) ?_ fun _ _ _ hs _ hstep =>
      (step_effect hstep).accounted hs
    refine ⟨?_, ?_⟩
    · simp [Database.AcceptedIds, System.initial, Database.initial, Database.view?,
        Table.empty, Table.get?]
    · simp [System.initial, System.Runs, Table.empty, Table.get?]
  intro m hm haccepted
  exact haccounted.ids m.id m.sendView (Database.view?_of_get? (Table.mem_iff_get?.mp hm)) haccepted

end ResendConversation
