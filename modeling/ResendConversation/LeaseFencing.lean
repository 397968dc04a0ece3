import ResendConversation.Writes

/-! # Lease fencing

A row of the outbox carries at most one lease token, the one that was last issued for it, and
every token belongs to one worker (`Leases`).  A finalization commits only while its worker's
token is on the row, so only the worker of the last claim can end an attempt; every other
worker's transaction throws and changes nothing. -/

namespace ResendConversation

open Foundation Tx

variable {Digest : Type} {rt : Runtime Digest}

/-! ### Tokens -/

/-- The lease that a worker holds, or held. -/
def Proc.lease : Proc Digest → Option (LeaseTarget × Uuid)
  | .batchDrain (.working batch _) => some (.batch batch.id, batch.leaseToken)
  | .entryDrain (.working _ _ entry _) => some (.entry entry.message.id, entry.leaseToken)
  | _ => none

theorem Proc.lease_eq_none {p : Proc Digest} (h : p.sends = false) : p.lease = none := by
  cases p with
  | batchDrain w => cases w <;> simp_all [sends, lease, batch]
  | entryDrain w => cases w <;> simp_all [sends, lease, entry]
  | send => rfl
  | receive => rfl
  | ingest => rfl
  | reaper => rfl
  | upload => rfl

namespace System

/-- The token that was last issued for a row. -/
def lastLease (s : System Digest) (target : LeaseTarget) : Option Uuid :=
  (s.leases.reverse.find? fun l => l.1 == target).map Prod.snd

theorem lastLease_of_issued {s s' : System Digest} {target : LeaseTarget} {token : Uuid}
    (h : s'.leases = s.leases ++ [(target, token)]) (t : LeaseTarget) :
    s'.lastLease t = if target = t then some token else s.lastLease t := by
  simp only [lastLease, h, List.reverse_append, List.reverse_singleton, List.singleton_append,
    List.find?_cons]
  by_cases ht : target = t
  · simp [ht]
  · rw [if_neg ht, beq_false_of_ne ht]

end System

/-- The tokens on the rows are the last ones issued for them; every token was drawn once, for
one worker. -/
structure Leases (s : System Digest) : Prop where
  drawn : ∀ l ∈ s.leases, l.2 < s.db.nextId
  distinct : (s.leases.map Prod.snd).Nodup
  batch : ∀ b ∈ s.db.outboxBatches, ∀ token, b.leaseToken = some token →
    s.lastLease (.batch b.id) = some token
  entry : ∀ e ∈ s.db.attachmentOutboxEntries, ∀ token, e.leaseToken = some token →
    s.lastLease (.entry e.messageId) = some token
  held : ∀ pid p l, s.Runs pid p → p.lease = some l → l ∈ s.leases
  unique : ∀ pid q p p' l l', s.Runs pid p → s.Runs q p' → p.lease = some l → p'.lease = some l' →
    l.2 = l'.2 → pid = q

theorem leases_initial (config : Config) (now : Time) :
    Leases (System.initial config now : System Digest) := by
  refine ⟨?_, ?_, ?_, ?_, ?_, ?_⟩
  all_goals simp [System.initial, System.Runs, Database.initial, Table.mem_def,
    Table.empty, Table.get?]

/-- A step that issues no token. -/
theorem Leases.of_kept {s s' : System Digest} (h : Leases s) (hn : s.db.nextId ≤ s'.db.nextId)
    (hl : s'.leases = s.leases)
    (hb : ∀ b' ∈ s'.db.outboxBatches, ∀ token, b'.leaseToken = some token →
      ∃ b ∈ s.db.outboxBatches, b.id = b'.id ∧ b.leaseToken = some token)
    (he : ∀ e' ∈ s'.db.attachmentOutboxEntries, ∀ token, e'.leaseToken = some token →
      ∃ e ∈ s.db.attachmentOutboxEntries, e.messageId = e'.messageId ∧ e.leaseToken = some token)
    (hruns : ∀ pid p l, s'.Runs pid p → p.lease = some l → ∃ p₀, s.Runs pid p₀ ∧
      p₀.lease = some l) :
    Leases s' := by
  have hlast : ∀ target, s'.lastLease target = s.lastLease target := fun target => by
    rw [System.lastLease, hl, System.lastLease]
  refine ⟨?_, ?_, ?_, ?_, ?_, ?_⟩
  · rw [hl]
    exact fun l hmem => (h.drawn l hmem).trans_le hn
  · rw [hl]
    exact h.distinct
  · intro b' hb' token ht
    obtain ⟨b, hmem, hid, htoken⟩ := hb b' hb' token ht
    rw [hlast, ← hid]
    exact h.batch b hmem token htoken
  · intro e' he' token ht
    obtain ⟨e, hmem, hid, htoken⟩ := he e' he' token ht
    rw [hlast, ← hid]
    exact h.entry e hmem token htoken
  · intro pid p l hp hlease
    obtain ⟨p₀, hp₀, hlease₀⟩ := hruns pid p l hp hlease
    exact hl ▸ h.held pid p₀ l hp₀ hlease₀
  · intro pid q p p' l l' hp hp' hlease hlease' heq
    obtain ⟨p₀, hp₀, h₀⟩ := hruns pid p l hp hlease
    obtain ⟨p₁, hp₁, h₁⟩ := hruns q p' l' hp' hlease'
    exact h.unique pid q p₀ p₁ l l' hp₀ hp₁ h₀ h₁ heq

/-- A step that issues a token to the process `pid`. -/
theorem Leases.of_issued {s s' : System Digest} (h : Leases s) {target : LeaseTarget} {pid : ℕ}
    (hn : s.db.nextId < s'.db.nextId) (hl : s'.leases = s.leases ++ [(target, s.db.nextId)])
    (hb : ∀ b' ∈ s'.db.outboxBatches, ∀ token, b'.leaseToken = some token →
      (target = .batch b'.id ∧ token = s.db.nextId) ∨ (target ≠ .batch b'.id ∧
        ∃ b ∈ s.db.outboxBatches, b.id = b'.id ∧ b.leaseToken = some token))
    (he : ∀ e' ∈ s'.db.attachmentOutboxEntries, ∀ token, e'.leaseToken = some token →
      (target = .entry e'.messageId ∧ token = s.db.nextId) ∨ (target ≠ .entry e'.messageId ∧
        ∃ e ∈ s.db.attachmentOutboxEntries, e.messageId = e'.messageId ∧ e.leaseToken = some token))
    (hruns : ∀ q p l, s'.Runs q p → p.lease = some l →
      (q = pid ∧ l = (target, s.db.nextId)) ∨ ∃ p₀, s.Runs q p₀ ∧ p₀.lease = some l) :
    Leases s' := by
  have hlast := System.lastLease_of_issued hl
  have hfresh : ∀ l ∈ s.leases, l.2 ≠ s.db.nextId := fun l hmem => (h.drawn l hmem).ne
  refine ⟨?_, ?_, ?_, ?_, ?_, ?_⟩
  · intro l hmem
    rw [hl, List.mem_append, List.mem_singleton] at hmem
    rcases hmem with hmem | rfl
    · exact (h.drawn l hmem).trans hn
    · exact hn
  · rw [hl, List.map_append, List.map_singleton]
    refine h.distinct.append (List.nodup_singleton _) ?_
    intro token hmem hnew
    obtain ⟨l, hl, rfl⟩ := List.mem_map.mp hmem
    exact hfresh l hl (List.mem_singleton.mp hnew)
  · intro b' hb' token ht
    rw [hlast]
    rcases hb b' hb' token ht with ⟨htarget, rfl⟩ | ⟨hne, b, hmem, hid, htoken⟩
    · rw [if_pos htarget]
    · rw [if_neg hne, ← hid]
      exact h.batch b hmem token htoken
  · intro e' he' token ht
    rw [hlast]
    rcases he e' he' token ht with ⟨htarget, rfl⟩ | ⟨hne, e, hmem, hid, htoken⟩
    · rw [if_pos htarget]
    · rw [if_neg hne, ← hid]
      exact h.entry e hmem token htoken
  · intro q p l hp hlease
    rw [hl, List.mem_append, List.mem_singleton]
    rcases hruns q p l hp hlease with ⟨-, rfl⟩ | ⟨p₀, hp₀, h₀⟩
    · exact .inr rfl
    · exact .inl (h.held q p₀ l hp₀ h₀)
  · intro q q' p p' l l' hp hp' hlease hlease' heq
    rcases hruns q p l hp hlease with ⟨rfl, rfl⟩ | ⟨p₀, hp₀, h₀⟩
    · rcases hruns q' p' l' hp' hlease' with ⟨rfl, -⟩ | ⟨p₁, hp₁, h₁⟩
      · rfl
      · exact absurd heq.symm (hfresh l' (h.held q' p₁ l' hp₁ h₁))
    · rcases hruns q' p' l' hp' hlease' with ⟨rfl, rfl⟩ | ⟨p₁, hp₁, h₁⟩
      · exact absurd heq (hfresh l (h.held q p₀ l hp₀ h₀))
      · exact h.unique q q' p₀ p₁ l l' hp₀ hp₁ h₀ h₁ heq

/-- A step that issues no token and leaves the rows with tokens alone. -/
theorem Leases.of_tables {s s' : System Digest} (h : Leases s) (hn : s.db.nextId ≤ s'.db.nextId)
    (hl : s'.leases = s.leases) (hb : s'.db.outboxBatches = s.db.outboxBatches)
    (he : s'.db.attachmentOutboxEntries = s.db.attachmentOutboxEntries)
    (hruns : ∀ pid p l, s'.Runs pid p → p.lease = some l → ∃ p₀, s.Runs pid p₀ ∧
      p₀.lease = some l) :
    Leases s' :=
  h.of_kept hn hl (fun b' hb' _ ht => ⟨b', hb ▸ hb', rfl, ht⟩)
    (fun e' he' _ ht => ⟨e', he ▸ he', rfl, ht⟩) hruns

/-! ### The steps -/

theorem Leases.of_batchClaim {s s' : System Digest} (h : Leases s) (hq : Queue rt s.db) {now : Time}
    {loaded : LoadedBatch Digest} (hc : BatchClaim now s.db s'.db loaded)
    (hl : s'.leases = s.leases ++ [(.batch loaded.batch.id, s.db.nextId)]) (pid : ℕ)
    (hruns : ∀ q p l, s'.Runs q p → p.lease = some l →
      (q = pid ∧ l = (.batch loaded.batch.id, s.db.nextId)) ∨ ∃ p₀, s.Runs q p₀ ∧
        p₀.lease = some l) :
    Leases s' := by
  have hid := Table.key_of_get? hc.loaded_eq.1
  cases hc with
  | @leased b found ready db_eq loaded_eq =>
      have hb := Table.key_of_get? loaded_eq.1
      refine h.of_issued (by rw [db_eq]; exact Nat.lt_succ_self _) hl ?_ ?_ hruns
      · intro b' hb' token ht
        have hrows : s'.db.outboxBatches = s.db.outboxBatches.update (fun r => r.id == b.id)
            (EmailOutboxBatch.lease now s.db.nextId) := by rw [db_eq]
        rw [hrows, Table.mem_update] at hb'
        obtain ⟨r, hr, rfl⟩ := hb'
        by_cases hrb : r.id = b.id
        · left
          simp only [hrb, beq_self_eq_true, if_true, EmailOutboxBatch.lease,
            Option.some.injEq] at ht ⊢
          exact ⟨congrArg LeaseTarget.batch hb, ht.symm⟩
        · right
          simp only [beq_false_of_ne hrb, Bool.false_eq_true, if_false] at ht ⊢
          exact ⟨fun heq => hrb ((LeaseTarget.batch.inj heq).symm.trans hb), r, hr, rfl, ht⟩
      · intro e' he' token ht
        rw [db_eq] at he'
        exact .inr ⟨by simp, e', he', rfl, ht⟩
  | @created ids table limit locked entries nonempty inserted db_eq loaded_eq =>
      have hb := Table.key_of_get? loaded_eq.1
      refine h.of_issued (by rw [db_eq]; exact Nat.lt_add_of_pos_right Nat.two_pos) hl ?_ ?_ hruns
      · intro b' hb' token ht
        rw [db_eq] at hb'
        rcases (Table.mem_insert? inserted).mp hb' with hold | rfl
        · refine .inr ⟨fun heq => ?_, b', hold, rfl, ht⟩
          have hlt := (hq.batch b' hold).1
          rw [← LeaseTarget.batch.inj heq, hb] at hlt
          exact absurd hlt (Nat.lt_succ_self _).asymm
        · exact .inl ⟨congrArg LeaseTarget.batch hb, (Option.some.inj ht).symm⟩
      · intro e' he' token ht
        rw [db_eq] at he'
        exact .inr ⟨by simp, e', he', rfl, ht⟩

theorem Leases.of_entryClaim {s s' : System Digest} (h : Leases s) (hq : Queue rt s.db) {now : Time}
    {entry : ClaimedEntry Digest} {e : EmailAttachmentOutboxEntry}
    (hc : EntryClaim now s.db s'.db entry e)
    (hl : s'.leases = s.leases ++ [(.entry entry.message.id, entry.leaseToken)]) (pid : ℕ)
    (hruns : ∀ q p l, s'.Runs q p → p.lease = some l →
      (q = pid ∧ l = (.entry entry.message.id, s.db.nextId)) ∨ ∃ p₀, s.Runs q p₀ ∧
        p₀.lease = some l) :
    Leases s' := by
  have hid := Table.key_of_get? hc.message
  rw [hc.leaseToken] at hl
  refine h.of_issued (by rw [hc.db_eq]; exact Nat.lt_succ_self _) hl ?_ ?_ hruns
  · intro b' hb' token ht
    exact .inr ⟨by simp, b', hc.batches ▸ hb', rfl, ht⟩
  · intro e' he' token ht
    have hrows : s'.db.attachmentOutboxEntries = s.db.attachmentOutboxEntries.update
        (fun r => r.messageId == e.messageId)
          (EmailAttachmentOutboxEntry.lease now s.db.nextId) := by
      rw [hc.db_eq, hq.sweptAttachments_eq]
    rw [hrows, Table.mem_update] at he'
    obtain ⟨r, hr, rfl⟩ := he'
    by_cases hre : r.messageId = e.messageId
    · left
      simp only [hre, beq_self_eq_true, if_true, EmailAttachmentOutboxEntry.lease,
        Option.some.injEq] at ht ⊢
      exact ⟨congrArg LeaseTarget.entry hid, ht.symm⟩
    · right
      simp only [beq_false_of_ne hre, Bool.false_eq_true, if_false] at ht ⊢
      exact ⟨fun heq => hre ((LeaseTarget.entry.inj heq).symm.trans hid), r, hr, rfl, ht⟩

/-- Every step keeps the tokens in order. -/
theorem Effect.leases {s s' : System Digest} {a : Action Digest} (hc : Coherent rt s) (h : Leases s)
    (he : Effect rt s a s') : Leases s' := by
  cases he with
  | quiet passive provider leases objects now retires =>
      refine h.of_tables passive.nextId_le leases passive.batches passive.attachmentEntries ?_
      exact System.kept_of_retires (fun _ => Proc.lease_eq_none) fun pid p hp hs =>
        retires pid p hp (.inl hs)
  | filed background provider leases now retires =>
      refine h.of_tables background.nextId_le leases background.batches
        background.attachmentEntries ?_
      exact System.kept_of_retires (fun _ => Proc.lease_eq_none) retires
  | reached callId accepted answer provider action reach eq =>
      subst eq
      exact h.of_tables le_rfl rfl rfl rfl fun pid p l hp hl => ⟨p, hp, hl⟩
  | deleted c db' action deletion eq =>
      subst eq
      refine h.of_kept deletion.nextId_le rfl
        (fun b' hb' _ ht => ⟨b', deletion.batches ▸ hb', rfl, ht⟩)
        (fun e' he' _ ht => ⟨e', ((deletion.attachmentEntries e').mp he').1, rfl, ht⟩) ?_
      exact fun pid p l hp hl => ⟨p, hp, hl⟩
  | stored pid c handler reopened db' id p action runs reopens stores next eq =>
      subst eq
      obtain ⟨⟨v, hs⟩, -⟩ := stores
      refine h.of_kept (hs.nextId_le.trans hs.lt_nextId.le) rfl
        (fun b' hb' _ ht => ⟨b', hs.batches ▸ hb', rfl, ht⟩) (fun e' he' _ ht => ?_)
        (System.kept_of_become rfl (.inl ?_))
      · rcases (hs.attachmentEntries e').mp he' with hold | ⟨-, -, rfl⟩
        · exact ⟨e', hold, rfl, ht⟩
        · cases ht
      · split at next
        next => exact Proc.lease_eq_none next.1
        next => rw [next]; rfl
  | engaged pid c handler m action runs found hash sync eq =>
      subst eq
      exact h.of_tables le_rfl rfl rfl rfl (System.kept_of_become rfl (.inl rfl))
  | reopening pid c handler conversation action runs found topic eq =>
      subst eq
      exact h.of_tables le_rfl rfl rfl rfl (System.kept_of_become rfl (.inl rfl))
  | expiring pid c handler id action runs phase eq =>
      subst eq
      exact h.of_tables le_rfl rfl rfl rfl (System.kept_of_become rfl (.inl rfl))
  | resumed pid c handler m action runs phase found window eq =>
      subst eq
      exact h.of_tables le_rfl rfl rfl rfl (System.kept_of_become rfl (.inl rfl))
  | prepared pid c handler d attachments action runs phase eq =>
      subst eq
      exact h.of_tables le_rfl rfl rfl rfl (System.kept_of_become rfl (.inl rfl))
  | expired pid c handler id db' p action runs phase rewrite next eq =>
      subst eq
      exact h.of_tables rewrite.nextId_le rfl rewrite.batches rewrite.attachmentEntries
        (System.kept_of_become rfl (.inl (Proc.lease_eq_none next.1)))
  | called pid c handler d attachments m action runs phase free found pending eq =>
      subst eq
      exact h.of_tables (Nat.le_succ _) rfl rfl rfl (System.kept_of_become rfl (.inl rfl))
  | refused pid c handler d attachments m error db' p action runs phase free found pending cause
      rewrite next eq =>
      subst eq
      exact h.of_tables rewrite.nextId_le rfl rewrite.batches rewrite.attachmentEntries
        (System.kept_of_become rfl (.inl (Proc.lease_eq_none next.1)))
  | settled pid c handler d m callId observation db' p action runs phase waits observed
      rewrite next eq =>
      subst eq
      have hruns := System.kept_of_become
        (rfl : ({ s.observe callId observation with db := db' } : System Digest).procs = s.procs)
        (.inl (Proc.lease_eq_none next.1) : p.lease = none ∨ ∃ p₀, s.Runs pid p₀ ∧
          p₀.lease = p.lease)
      rcases rewrite with rfl | rewrite
      · exact h.of_tables le_rfl rfl rfl rfl hruns
      · exact h.of_tables rewrite.nextId_le rfl rewrite.batches rewrite.attachmentEntries hruns
  | batchSwept pid p next eq =>
      subst eq
      exact h.of_tables (Nat.le_succ _) rfl rfl rfl
        (System.kept_of_become rfl (.inl (Proc.lease_eq_none next.1)))
  | batchClaimed pid c loaded db' p claim free next eq =>
      subst eq
      refine h.of_batchClaim hc.queue claim rfl pid fun q p' l hq hl => ?_
      rcases System.runs_become.mp hq with ⟨hpid, rfl⟩ | ⟨-, hold⟩
      · left
        have hqueue := hc.queue.of_batchClaim claim
        obtain ⟨batch, hcheck, hid, htoken, -⟩ :=
          hqueue.checkClaim_eq_ok s.db.nextId claim.loaded_eq
        rw [hcheck] at next
        subst next
        simp only [Proc.lease, hid, htoken, Option.some.injEq] at hl
        exact ⟨hpid, hl.symm⟩
      · exact .inr ⟨p', hold, hl⟩
  | batchSkipped pid c batch claimedAt decision action runs decided eq =>
      subst eq
      exact h.of_tables le_rfl rfl rfl rfl (System.kept_of_become rfl (.inr ⟨_, runs, rfl⟩))
  | batchCalled pid c batch claimedAt action runs window eq =>
      subst eq
      exact h.of_tables (Nat.le_succ _) rfl rfl rfl
        (System.kept_of_become rfl (.inr ⟨_, runs, rfl⟩))
  | batchObserved pid c batch callId observation action runs observed eq =>
      subst eq
      exact h.of_tables le_rfl rfl rfl rfl (System.kept_of_become rfl (.inr ⟨_, runs, rfl⟩))
  | batchFinalized pid c batch decision db' p action runs finalized next eq =>
      subst eq
      refine h.of_kept finalized.nextId_le rfl (fun b' hb' _ ht => ⟨b', ?_, rfl, ht⟩)
        (fun e' he' _ ht => ⟨e', finalized.attachmentEntries ▸ he', rfl, ht⟩)
        (System.kept_of_become rfl (.inl (Proc.lease_eq_none next.1)))
      change b' ∈ db'.outboxBatches at hb'
      rw [finalized.batches] at hb'
      exact (Table.mem_delete.mp hb').1
  | batchRescheduled pid c batch decision db' p action runs rescheduled next eq =>
      subst eq
      obtain ⟨now, errorCode, rfl⟩ := rescheduled.db_eq
      refine h.of_kept le_rfl rfl (fun b' hb' token ht => ?_)
        (fun e' he' _ ht => ⟨e', he', rfl, ht⟩)
        (System.kept_of_become rfl (.inl (Proc.lease_eq_none next.1)))
      change b' ∈ s.db.outboxBatches.update batch.owned
        (EmailOutboxBatch.reschedule now batch.attemptCount errorCode) at hb'
      rw [Table.mem_update] at hb'
      obtain ⟨b, hb, rfl⟩ := hb'
      split at ht
      next => cases ht
      next hkeep => exact ⟨b, hb, by rw [if_neg hkeep], ht⟩
  | entrySwept pid p next eq =>
      subst eq
      rw [hc.queue.sweptAttachments_eq]
      exact h.of_tables (Nat.le_succ _) rfl rfl rfl
        (System.kept_of_become rfl (.inl (Proc.lease_eq_none next.1)))
  | entryClaimed pid c remaining result entry e db' action runs claim eq =>
      subst eq
      refine h.of_entryClaim hc.queue claim rfl pid fun q p' l hq hl => ?_
      rcases System.runs_become.mp hq with ⟨hpid, rfl⟩ | ⟨-, hold⟩
      · left
        simp only [Proc.lease, claim.leaseToken, Option.some.injEq] at hl
        exact ⟨hpid, hl.symm⟩
      · exact .inr ⟨p', hold, hl⟩
  | entrySkipped pid c remaining result entry claimedAt decision action runs decided eq =>
      subst eq
      exact h.of_tables le_rfl rfl rfl rfl (System.kept_of_become rfl (.inr ⟨_, runs, rfl⟩))
  | entryCalled pid c remaining result entry claimedAt attachments action runs window eq =>
      subst eq
      exact h.of_tables (Nat.le_succ _) rfl rfl rfl
        (System.kept_of_become rfl (.inr ⟨_, runs, rfl⟩))
  | entryObserved pid c remaining result entry callId observation action runs observed eq =>
      subst eq
      exact h.of_tables le_rfl rfl rfl rfl (System.kept_of_become rfl (.inr ⟨_, runs, rfl⟩))
  | entryFinalized pid c remaining result entry decision db' p action runs finalized next eq =>
      subst eq
      refine h.of_kept finalized.nextId_le rfl
        (fun b' hb' _ ht => ⟨b', finalized.batches ▸ hb', rfl, ht⟩)
        (fun e' he' _ ht => ⟨e', ?_, rfl, ht⟩)
        (System.kept_of_become rfl (.inl (Proc.lease_eq_none next.1)))
      change e' ∈ db'.attachmentOutboxEntries at he'
      rw [finalized.attachmentEntries] at he'
      exact (Table.mem_delete.mp he').1
  | entryRescheduled pid c remaining result entry decision db' p action runs rescheduled next eq =>
      subst eq
      obtain ⟨now, errorCode, rfl⟩ := rescheduled.db_eq
      refine h.of_kept le_rfl rfl (fun b' hb' _ ht => ⟨b', hb', rfl, ht⟩)
        (fun e' he' token ht => ?_)
        (System.kept_of_become rfl (.inl (Proc.lease_eq_none next.1)))
      change e' ∈ s.db.attachmentOutboxEntries.update entry.owned
        (EmailAttachmentOutboxEntry.reschedule now entry.attemptCount errorCode) at he'
      rw [Table.mem_update] at he'
      obtain ⟨e, he, rfl⟩ := he'
      split at ht
      next => cases ht
      next hkeep => exact ⟨e, he, by rw [if_neg hkeep], ht⟩
  | entryRedecided pid c remaining result entry decision name message action runs eq =>
      subst eq
      exact h.of_tables le_rfl rfl rfl rfl (System.kept_of_become rfl (.inr ⟨_, runs, rfl⟩))

/-! ### Claims never throw -/

theorem freshId_eq_error {db : Database Digest} {e : TxError} :
    (freshId : Transaction Digest Uuid) db = .error e ↔ False := by
  change Except.ok _ = _ ↔ _
  simp

theorem insertRow_eq_error {α κ : Type} [DecidableEq κ] {key : α → κ}
    {t : Database Digest → Table key} {put : Database Digest → Table key → Database Digest}
    {row : α} {db : Database Digest} {e : TxError} :
    insertRow t put row db = .error e ↔ (t db).insert? row = none ∧ .uniqueViolation = e := by
  simp [insertRow, bind_eq_error, get_eq_error, get_eq_ok, orThrow_eq_error, orThrow_eq_ok,
    modify_eq_error]

theorem loadBatch_ne_error {db : Database Digest} {batchId : Uuid} {e : TxError}
    (h : (db.outboxBatches.get? batchId).isSome) : loadBatch batchId db ≠ .error e := by
  intro heq
  simp only [loadBatch, bind_eq_error, get_eq_error, get_eq_ok, orThrow_eq_error, orThrow_eq_ok,
    pure_eq_error, false_or, and_false, exists_false, or_false] at heq
  obtain ⟨_, _, ⟨rfl, rfl⟩, hnone, -⟩ := heq
  rw [hnone] at h
  cases h

theorem Queue.claimTransaction_ne_error {db : Database Digest} (h : Queue rt db) (now : Time)
    (limit : ℕ) (locked : List Uuid) (e : TxError) :
    claimTransaction now limit locked db ≠ .error e := by
  intro heq
  simp only [claimTransaction, bind_eq_error, freshId_eq_error, freshId_eq_ok, modify_eq_error,
    modify_eq_ok, get_eq_error, get_eq_ok, false_or] at heq
  obtain ⟨_, _, ⟨rfl, rfl⟩, _, _, rfl, _, _, ⟨rfl, rfl⟩, heq⟩ := heq
  change _ = Except.error e at heq
  cases hready : readyBatch (swept db) now locked with
  | some b =>
      rw [show readyBatch (deleteSettledEntries _) now locked = some b from hready] at heq
      have hb := (Table.mem_selectSorted.mp (List.mem_of_head? hready)).1
      simp only [bind_eq_error, leaseBatch, modify_eq_error, modify_eq_ok, pure_eq_error, false_or,
        and_false, exists_false, or_false] at heq
      obtain ⟨_, _, rfl, heq⟩ := heq
      refine loadBatch_ne_error ?_ heq
      rw [Table.get?_update, Option.isSome_map]
      exact Option.isSome_iff_exists.mpr ⟨b, Table.mem_iff_get?.mp hb⟩
  | none =>
      rw [show readyBatch (deleteSettledEntries _) now locked = none from hready] at heq
      cases hids : unbatchedEntries (swept db) limit locked with
      | nil =>
          rw [show unbatchedEntries (deleteSettledEntries _) limit locked = [] from hids] at heq
          exact pure_eq_error.mp heq
      | cons id ids =>
          rw [show unbatchedEntries (deleteSettledEntries _) limit locked =
            id :: ids from hids] at heq
          have hfree : db.outboxBatches.get? (db.nextId + 1) = none := by
            rw [Table.get?_eq_none]
            intro b hb hid
            have hlt := (h.batch b hb).1
            rw [hid] at hlt
            exact absurd hlt (Nat.lt_succ_self _).asymm
          obtain ⟨table, ht⟩ := Table.insert?_eq_some_iff.mpr
            (show db.outboxBatches.get? (newBatch now db.nextId (db.nextId + 1)).id =
              none from hfree)
          simp only [createBatch, bind_eq_error, bind_eq_ok, freshId_eq_error, freshId_eq_ok,
            insertRow_eq_error, insertRow_eq_ok, modify_eq_error, modify_eq_ok, pure_eq_error,
            pure_eq_ok, false_or, or_false, and_false, exists_false] at heq
          obtain ⟨_, _, ⟨rfl, rfl⟩, hnone, -⟩ |
              ⟨_, _, ⟨_, _, ⟨rfl, rfl⟩, _, _, ⟨table', ht', rfl⟩, _, _,
            rfl, rfl, rfl⟩, heq⟩ := heq
          · exact absurd (ht.symm.trans hnone) (by simp)
          · refine loadBatch_ne_error ?_ heq
            simp [Table.get?_of_insert? ht', newBatch]

/-- A claim of the batch lane returns: its check of the message states passes. -/
theorem Coherent.claimOutboxBatch_eq_ok {s : System Digest} (h : Coherent rt s) (limit : ℕ)
    (c : Choice Digest) : ∃ claim, (claimOutboxBatch s limit c).1 = .ok claim := by
  unfold claimOutboxBatch
  rcases s.transact_cases (claimTransaction (s.clock c.readAt) limit c.locked) with
    ⟨claim, db', hok, heq⟩ | ⟨e, heq⟩
  · rw [heq]
    rcases claimTransaction_eq_ok hok with ⟨rfl, -⟩ | ⟨loaded, rfl, hclaim⟩
    · exact ⟨none, rfl⟩
    · obtain ⟨batch, hcheck, -⟩ :=
        (h.queue.of_batchClaim hclaim).checkClaim_eq_ok s.db.nextId hclaim.loaded_eq
      exact ⟨some batch, by simp only [hcheck]; rfl⟩
  · exfalso
    unfold System.transact execute at heq
    cases hx : claimTransaction (s.clock c.readAt) limit c.locked s.db with
    | ok r => simp [hx] at heq
    | error error => exact h.queue.claimTransaction_ne_error _ _ _ _ hx

/-! ### Fencing -/

/-- The worker's token is on the row of its batch, and is the last one issued for it. -/
def ClaimedBatch.Current (s : System Digest) (batch : ClaimedBatch Digest) : Prop :=
  (∃ b ∈ s.db.outboxBatches, batch.owned b = true) ∧
    s.lastLease (.batch batch.id) = some batch.leaseToken

def ClaimedEntry.Current (s : System Digest) (entry : ClaimedEntry Digest) : Prop :=
  (∃ e ∈ s.db.attachmentOutboxEntries, entry.owned e = true) ∧
    s.lastLease (.entry entry.message.id) = some entry.leaseToken

theorem Leases.current_of_finalizeBatch {s : System Digest} (h : Leases s) {config : Config}
    {now : Time} {batch : ClaimedBatch Digest} {decision : BatchDecision} {u : Unit}
    {db' : Database Digest} (hf : finalizeBatch config now batch decision s.db = .ok (u, db')) :
    batch.Current s := by
  have howned : ∃ b ∈ s.db.outboxBatches, batch.owned b = true := by
    rcases finalizeBatch_eq_ok hf with hfin | ⟨-, hretry⟩
    · exact hfin.owned
    · exact hretry.owned
  obtain ⟨b, hb, ho⟩ := howned
  obtain ⟨hid, htoken⟩ := ClaimedBatch.owned_iff.mp ho
  exact ⟨⟨b, hb, ho⟩, hid ▸ h.batch b hb _ htoken⟩

theorem Leases.current_of_endEntry {s : System Digest} (h : Leases s) {config : Config}
    {now : Time} {entry : ClaimedEntry Digest} {decision : EntryDecision} {u : Unit}
    {db' : Database Digest} (hf : endEntry config now entry decision s.db = .ok (u, db')) :
    entry.Current s := by
  have howned : ∃ e ∈ s.db.attachmentOutboxEntries, entry.owned e = true := by
    rcases endEntry_eq_ok hf with hfin | ⟨-, hretry⟩
    · exact hfin.owned
    · exact hretry.owned
  obtain ⟨e, he, ho⟩ := howned
  obtain ⟨hid, htoken⟩ := ClaimedEntry.owned_iff.mp ho
  exact ⟨⟨e, he, ho⟩, hid ▸ h.entry e he _ htoken⟩

variable [DecidableEq Digest]

theorem Reachable.leases {s : System Digest} (hinj : Function.Injective rt.hashSendRequest)
    (h : Reachable rt s) : Leases s := by
  obtain ⟨config, now, hrun⟩ := h
  refine (hrun.invariant (I := fun s => Coherent rt s ∧ Leases s)
    ⟨coherent_initial config now, leases_initial config now⟩ ?_).2
  rintro s a s' ⟨hc, hl⟩ - hs
  exact ⟨(hc.next hinj hs).1, (step_effect hs).leases hc hl⟩

/-- A queued message that has ended does not change any more. -/
theorem Coherent.queued_absorbing {s t : System Digest}
    (hinj : Function.Injective rt.hashSendRequest) (hc : Coherent rt s)
    (hrun : Run (step rt) Always s t) :
    Coherent rt t ∧ Later s.db t.db ∧ ∀ id v v', s.db.view? id = some v → v.Queued rt →
      v.state ≠ .pending → t.db.view? id = some v' → v' = v := by
  induction hrun with
  | refl =>
      refine ⟨hc, Std.Refl.refl (r := Later) _, fun id v v' hv _ _ hv' => ?_⟩
      rw [hv] at hv'
      exact (Option.some.inj hv').symm
  | tail hrun _ hs ih =>
      obtain ⟨hct, hlater, hkeep⟩ := ih
      obtain ⟨hcu, hl⟩ := hct.next hinj hs
      refine ⟨hcu, IsTrans.trans (r := Later) _ _ _ hlater hl, fun id v v' hv hq hne hv' => ?_⟩
      have hid := (hc.origins.origin id v hv).1.trans_le hlater.nextId_le
      obtain ⟨u, hu, -⟩ := hl.view id v' hid hv'
      obtain rfl := hkeep id v u hv hq hne hu
      by_contra hchanged
      exact hne (((step_effect hs).write hu hv' hchanged).of_queued hinj hct hu hq)

/-- Lease fencing in a state: a finalization under a token that is not current throws and
changes nothing, no two workers have the same token, no claim throws, and from here on no
queued message that has ended is changed again. -/
structure Fenced (rt : Runtime Digest) (s : System Digest) : Prop where
  batch : ∀ now decision (batch : ClaimedBatch Digest), ¬batch.Current s →
    ∃ error, s.transact (finalizeBatch s.config now batch decision) = (.error error, s)
  entry : ∀ now decision (entry : ClaimedEntry Digest), ¬entry.Current s →
    ∃ error, s.transact (endEntry s.config now entry decision) = (.error error, s)
  holder : ∀ pid q p p' l l', s.Runs pid p → s.Runs q p' → p.lease = some l → p'.lease = some l' →
    l.2 = l'.2 → pid = q
  once : ∀ t, Run (step rt) Always s t → ∀ id v v', s.db.view? id = some v → v.Queued rt →
    v.state ≠ .pending → t.db.view? id = some v' → v' = v
  claim : ∀ limit c, ∃ claim, (claimOutboxBatch s limit c).1 = .ok claim

/-- In every reachable state the leases fence the finalizations. -/
theorem Reachable.fenced {s : System Digest} (hinj : Function.Injective rt.hashSendRequest)
    (h : Reachable rt s) : Fenced rt s := by
  have hl := h.leases hinj
  have hc := h.coherent hinj
  refine ⟨fun now decision batch hstale => ?_, fun now decision entry hstale => ?_, hl.unique,
    fun t hrun => (hc.queued_absorbing hinj hrun).2.2, hc.claimOutboxBatch_eq_ok⟩
  · rcases s.transact_cases (finalizeBatch s.config now batch decision) with
      ⟨u, db', hok, -⟩ | herror
    · exact absurd (hl.current_of_finalizeBatch hok) hstale
    · exact herror
  · rcases s.transact_cases (endEntry s.config now entry decision) with ⟨u, db', hok, -⟩ | herror
    · exact absurd (hl.current_of_endEntry hok) hstale
    · exact herror

/-- Two workers that claimed the same batch, the first of which lost its lease. -/
theorem fenced_reference : ∃ s, s.leases = [(.batch 2, 1), (.batch 2, 3)] ∧
    Function.Injective Runtime.reference.hashSendRequest ∧ Reachable .reference s ∧
      Fenced .reference s := by
  obtain ⟨s, hrun, hs⟩ : ∃ s, Run (step .reference) Always .reference s ∧
      s.leases = [(.batch 2, 1), (.batch 2, 3)] := Run.exists_of_exec
    (Reference.grants ++ Reference.submit 0 (Reference.direct true (js "s")) (js "k") ++
      [.start 1 (.batchDrain 10) {}, .tick 200000, .start 2 (.batchDrain 10) {}])
    (by decide +kernel)
  have hr := Reachable.of_run hrun
  exact ⟨s, hs, Runtime.reference_injective, hr, hr.fenced Runtime.reference_injective⟩

end ResendConversation
