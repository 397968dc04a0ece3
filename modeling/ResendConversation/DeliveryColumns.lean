import ResendConversation.DeliveryOrder

/-! # The delivery columns

The delivery columns of an outbound message are a function of the ledger: the reduction of the
events of its provider email (`ledgerDelivery`).  A projection writes them, and whoever changes
the ledger or a provider identifier projects before it commits.  So after every committed
transaction the columns are what the ledger says (`Database.Delivered`), however the webhooks, their
repetitions and the acceptances of the three lanes are ordered. -/

namespace ResendConversation

open Foundation Tx

variable {Digest : Type}

/-! ### Columns and ledger -/

/-- The columns that a projection writes. -/
structure DeliveryRecord where
  state : Option EmailDeliveryState
  detail : Option JsString
  updatedAt : Option Time
  deliveredAt : Option Time
deriving DecidableEq

def EmailMessage.delivery (m : EmailMessage Digest) : DeliveryRecord where
  state := m.deliveryState
  detail := m.deliveryStateDetail
  updatedAt := m.deliveryStateUpdatedAt
  deliveredAt := m.deliveredAt

/-- The columns of an email without a delivery event. -/
def DeliveryRecord.unreported : DeliveryRecord := ⟨some .unknown, none, none, none⟩

/-- The columns that a projection writes for the reduced events. -/
def ProjectedDelivery.columns (projected : ProjectedDelivery) : DeliveryRecord :=
  match projected.current with
  | none => .unreported
  | some (state, event) =>
      ⟨some state, event.deliveryDetail, some event.eventCreatedAt, projected.deliveredAt⟩

/-- What the ledger says of the email that a message was accepted as. -/
def ledgerDelivery (ledger : List EmailWebhookEvent) (resendEmailId : Option JsString) :
    DeliveryRecord :=
  match resendEmailId with
  | none => .unreported
  | some emailId => (reduceDeliveryEvents (deliveryLedger ledger emailId)).columns

namespace Database

/-- The outbound messages have the columns of the ledger, but for those of the emails. -/
def DeliveredBut (db : Database Digest) (emails : List JsString) : Prop :=
  ∀ m ∈ db.messages, m.direction = .outbound → (∀ emailId ∈ emails, m.resendEmailId = some emailId →
    (reduceDeliveryEvents (deliveryLedger db.webhookEvents.rows emailId)).current = none) →
      m.delivery = ledgerDelivery db.webhookEvents.rows m.resendEmailId

/-- The outbound messages have the columns of the ledger. -/
def Delivered (db : Database Digest) : Prop :=
  ∀ m ∈ db.messages, m.direction = .outbound →
    m.delivery = ledgerDelivery db.webhookEvents.rows m.resendEmailId

theorem deliveredBut_nil {db : Database Digest} : db.DeliveredBut [] ↔ db.Delivered := by
  constructor
  · intro h m hm hout
    exact h m hm hout fun emailId hmem => absurd hmem List.not_mem_nil
  · intro h m hm hout _
    exact h m hm hout

end Database

theorem ledgerDelivery_of_current_eq_none {ledger : List EmailWebhookEvent} {emailId : JsString}
    (h : (reduceDeliveryEvents (deliveryLedger ledger emailId)).current = none) :
    ledgerDelivery ledger (some emailId) = .unreported := by
  simp only [ledgerDelivery, ProjectedDelivery.columns, h]

/-- A further event changes what the ledger says of its own email only. -/
theorem deliveryLedger_concat_of_ne {ledger : List EmailWebhookEvent} {e : EmailWebhookEvent}
    {emailId : JsString} (h : e.emailId ≠ emailId) :
    deliveryLedger (ledger ++ [e]) emailId = deliveryLedger ledger emailId := by
  have hdropped : [e].filter
      (fun e => e.emailId == emailId && (deliveryStateByEventType e.eventType).isSome) = [] := by
    simp [h]
  simp only [deliveryLedger, List.filter_append, hdropped, List.append_nil]

/-- An email that is unreported was so before. -/
theorem deliveryLedger_nil_of_concat {ledger : List EmailWebhookEvent} {e : EmailWebhookEvent}
    {emailId : JsString} (h : deliveryLedger (ledger ++ [e]) emailId = []) :
    deliveryLedger ledger emailId = [] := by
  refine List.eq_nil_iff_forall_not_mem.mpr fun x hx => ?_
  have hx' : x ∈ deliveryLedger (ledger ++ [e]) emailId := by
    rw [mem_deliveryLedger] at hx ⊢
    exact ⟨List.mem_append_left _ hx.1, hx.2⟩
  rw [h] at hx'
  cases hx'

/-- Nothing is reported exactly of an email without delivery events. -/
theorem current_eq_none_iff {ledger : List EmailWebhookEvent} {emailId : JsString} :
    (reduceDeliveryEvents (deliveryLedger ledger emailId)).current = none ↔
      deliveryLedger ledger emailId = [] := by
  have hstates : ∀ e ∈ deliveryLedger ledger emailId,
      (deliveryStateByEventType e.eventType).isSome = true :=
    fun e he => (mem_deliveryLedger.mp he).2.2
  constructor
  · intro h
    rw [reduceDeliveryEvents_current hstates] at h
    cases hlast : (deliveryLedger ledger emailId).getLast? with
    | none => exact List.getLast?_eq_none_iff.mp hlast
    | some last =>
        rw [hlast] at h
        obtain ⟨e, he, hmem⟩ : ∃ e,
            (((deliveryLedger ledger emailId).filter EmailWebhookEvent.terminal).getLast?.or
            (some last)) = some e ∧ e ∈ deliveryLedger ledger emailId := by
          cases hterminal :
            ((deliveryLedger ledger emailId).filter EmailWebhookEvent.terminal).getLast? with
          | none => exact ⟨last, rfl, List.mem_of_getLast? hlast⟩
          | some e => exact ⟨e, rfl, List.mem_of_mem_filter (List.mem_of_getLast? hterminal)⟩
        rw [he, Option.bind_some, reported, Option.map_eq_none_iff] at h
        have hsome := hstates e hmem
        rw [deliveryStateByEventType_eq_caseEventType, h] at hsome
        cases hsome
  · intro h
    rw [h]
    rfl

/-! ### Projections -/

/-- A projection settles its email. -/
theorem delivered_project {config : Config} {emailId : JsString} {emails : List JsString}
    {db db' : Database Digest} {u : Unit}
    (h : projectOutboundDeliveryStateForResendEmail config emailId db = .ok (u, db'))
    (hledger : db'.webhookEvents = db.webhookEvents) (hbut : db.DeliveredBut (emailId :: emails)) :
    db'.DeliveredBut emails := by
  have hmessages := project_messages h
  intro m' hm' hout hsettled
  rw [hledger] at hsettled ⊢
  cases hcurrent :
    (reduceDeliveryEvents (deliveryLedger db.webhookEvents.rows emailId)).current with
  | none =>
      rw [hcurrent] at hmessages
      rw [hmessages] at hm'
      refine hbut m' hm' hout fun other hmem heq => ?_
      rcases List.mem_cons.mp hmem with rfl | hmem
      · exact hcurrent
      · exact hsettled other hmem heq
  | some current =>
      obtain ⟨state, event⟩ := current
      rw [hcurrent] at hmessages
      rw [hmessages, Table.mem_update] at hm'
      obtain ⟨m, hm, rfl⟩ := hm'
      split at hout
      next hselected =>
        rw [if_pos hselected]
        rw [Bool.and_eq_true, beq_iff_eq, beq_iff_eq] at hselected
        simp only [EmailMessage.delivery, ledgerDelivery, hselected.2,
          ProjectedDelivery.columns, hcurrent]
      next hother =>
        rw [if_neg hother] at hsettled ⊢
        refine hbut m hm hout fun other hmem heq => ?_
        rcases List.mem_cons.mp hmem with rfl | hmem
        · refine absurd ?_ hother
          rw [hout, heq]
          simp
        · exact hsettled other hmem heq

/-- A projection of an email that is settled changes no message. -/
theorem project_delivered {config : Config} {emailId : JsString} {db db' : Database Digest}
    {u : Unit} (h : projectOutboundDeliveryStateForResendEmail config emailId db = .ok (u, db'))
    (hdelivered : db.Delivered) :
    db'.messages = db.messages := by
  have hmessages := project_messages h
  cases hcurrent :
    (reduceDeliveryEvents (deliveryLedger db.webhookEvents.rows emailId)).current with
  | none =>
      rw [hcurrent] at hmessages
      exact hmessages
  | some current =>
      obtain ⟨state, event⟩ := current
      rw [hcurrent] at hmessages
      rw [hmessages]
      refine Table.update_eq_self fun m hm hselected => ?_
      rw [Bool.and_eq_true, beq_iff_eq, beq_iff_eq] at hselected
      have hcolumns := hdelivered m hm hselected.1
      simp only [EmailMessage.delivery, ledgerDelivery, hselected.2,
        ProjectedDelivery.columns, hcurrent, DeliveryRecord.mk.injEq] at hcolumns
      obtain ⟨hstate, hdetail, hupdated, hdeliveredAt⟩ := hcolumns
      rw [← hstate, ← hdetail, ← hupdated, ← hdeliveredAt]

theorem delivered_reconcileAll {config : Config} {ids : List JsString} {db db' : Database Digest}
    {u : Unit} (hsound : db.Sound) (h : reconcileAll config ids db = .ok (u, db'))
    (hbut : db.DeliveredBut ids) :
    db'.Delivered := by
  induction ids generalizing db with
  | nil =>
      obtain ⟨-, rfl⟩ := pure_eq_ok.mp h
      exact Database.deliveredBut_nil.mp hbut
  | cons id ids ih =>
      obtain ⟨_, db₁, hproject, h⟩ := bind_eq_ok.mp h
      have hledger := (failureReport_project hsound.resendEmailId hproject).ledger
      exact ih (((@minor_projectOutboundDeliveryState Digest (fun x => x) _ _) hproject).keeps
        hsound) h
        (delivered_project hproject hledger hbut)

/-! ### Webhooks and acceptances -/

/-- Messages without a provider identifier get one. -/
theorem deliveredBut_update {db : Database Digest} {emails : List JsString}
    {p : EmailMessage Digest → Bool} {f : EmailMessage Digest → EmailMessage Digest}
    {keep : ∀ m, (f m).id = m.id} (hdelivered : db.Delivered)
    (hunsent : ∀ m ∈ db.messages, p m = true → m.resendEmailId = none)
    (hdirection : ∀ m, (f m).direction = m.direction)
    (hcolumns : ∀ m, (f m).delivery = { m.delivery with state := some .unknown })
    (hemails : ∀ m emailId, (f m).resendEmailId = some emailId → emailId ∈ emails) :
    Database.DeliveredBut { db with messages := db.messages.update p f keep } emails := by
  intro m' hm' hout hsettled
  have hm' : m' ∈ db.messages.update p f keep := hm'
  obtain ⟨m, hm, rfl⟩ := Table.mem_update.mp hm'
  split at hout
  next hp =>
    rw [if_pos hp] at hsettled ⊢
    have hbefore : m.delivery = .unreported := by
      rw [hdelivered m hm ((hdirection m).symm.trans hout), hunsent m hm hp]
      rfl
    rw [hcolumns, hbefore]
    cases hid : (f m).resendEmailId with
    | none => rfl
    | some emailId =>
        exact (ledgerDelivery_of_current_eq_none
          (hsettled emailId (hemails m emailId hid) hid)).symm
  next hp =>
    rw [if_neg hp]
    exact hdelivered m hm hout

/-- A new event is reported of its own email only. -/
theorem deliveredBut_insert {db : Database Digest} {e : EmailWebhookEvent} {n : Uuid}
    {table : Table EmailWebhookEvent.svixId} (hdelivered : db.Delivered)
    (hrows : table.rows = db.webhookEvents.rows ++ [e]) :
    Database.DeliveredBut { db with nextId := n, webhookEvents := table } [e.emailId] := by
  intro m hm hout hsettled
  dsimp only at hsettled ⊢
  rw [hrows] at hsettled ⊢
  rw [hdelivered m hm hout]
  cases hid : m.resendEmailId with
  | none => rfl
  | some emailId =>
      by_cases heq : e.emailId = emailId
      · subst heq
        have hcurrent := hsettled e.emailId List.mem_cons_self hid
        have hbefore :=
          current_eq_none_iff.mpr (deliveryLedger_nil_of_concat (current_eq_none_iff.mp hcurrent))
        rw [ledgerDelivery_of_current_eq_none hcurrent, ledgerDelivery_of_current_eq_none hbefore]
      · simp only [ledgerDelivery, deliveryLedger_concat_of_ne heq]

theorem delivered_webhook {config : Config} {now : Time} {svixId eventType emailId : JsString}
    {eventCreatedAt : Time} {deliveryDetail : Option JsString} {db db' : Database Digest}
    (hsound : db.Sound) {u : Unit}
    (h : recordDeliveryWebhook config now svixId eventType emailId eventCreatedAt
      deliveryDetail db = .ok (u, db')) (hdelivered : db.Delivered) : db'.Delivered := by
  obtain ⟨_, _, hget, h⟩ := bind_eq_ok.mp h
  obtain ⟨rfl, rfl⟩ := get_eq_ok.mp hget
  cases hknown : db.webhookEvents.get? svixId with
  | some existing =>
      rw [hknown] at h
      have hledger := (failureReport_project hsound.resendEmailId h).ledger
      exact Database.deliveredBut_nil.mp
        (delivered_project h hledger fun m hm hout _ => hdelivered m hm hout)
  | none =>
      rw [hknown] at h
      obtain ⟨_, db₁, hcreate, h⟩ := bind_eq_ok.mp h
      have hsound₁ :=
        ((@minor_createWebhookEvent Digest (fun x => x) _ _ _ _ _ _) hcreate).keeps hsound
      have hledger := (failureReport_project hsound₁.resendEmailId h).ledger
      obtain ⟨_, _, hget, hcreate⟩ := bind_eq_ok.mp hcreate
      obtain ⟨rfl, rfl⟩ := get_eq_ok.mp hget
      rw [hknown, Option.isSome_none, if_neg (by simp)] at hcreate
      obtain ⟨id, db₂, hid, hinsert⟩ := bind_eq_ok.mp hcreate
      obtain ⟨rfl, rfl⟩ := freshId_eq_ok.mp hid
      obtain ⟨table, htable, rfl⟩ := insertRow_eq_ok.mp hinsert
      exact Database.deliveredBut_nil.mp (delivered_project h hledger
        (deliveredBut_insert hdelivered (Table.insert?_rows htable)))

theorem delivered_sent {config : Config} {messageId : Uuid} {resendEmailId : JsString}
    {db db' : Database Digest} (hsound : db.Sound) {m m' : EmailMessage Digest}
    (hm : db.messages.get? messageId = some m) (hunsent : m.resendEmailId = none)
    (h : recordSent config messageId resendEmailId db = .ok (m', db')) (hdelivered : db.Delivered) :
    db'.Delivered := by
  obtain ⟨_, db₁, hupdate, h⟩ := bind_eq_ok.mp h
  have hsound₁ : db₁.Sound := by
    refine (minor_updateMessage (?_ : ∀ m, _) hupdate : Lawful (fun x => x) _ _ _).keeps hsound
    exact fun _ => rfl
  obtain ⟨-, -, -, -, rfl⟩ := updateMessage_eq_ok.mp hupdate
  obtain ⟨_, db₂, hproject, h⟩ := bind_eq_ok.mp h
  obtain ⟨_, _, hget, h⟩ := bind_eq_ok.mp h
  obtain ⟨rfl, rfl⟩ := get_eq_ok.mp hget
  obtain ⟨-, rfl⟩ := orThrow_eq_ok.mp h
  have hledger := (failureReport_project hsound₁.resendEmailId hproject).ledger
  refine Database.deliveredBut_nil.mp (delivered_project hproject hledger
    (deliveredBut_update hdelivered (fun n hn hp => ?_) (fun _ => rfl) (fun _ => rfl)
      fun n emailId hid => ?_))
  · rw [beq_iff_eq] at hp
    have hsame : n = m := Option.some.inj ((Table.get?_eq_some.mpr ⟨hn, hp⟩).symm.trans hm)
    rw [hsame, hunsent]
  · exact List.mem_singleton.mpr (Option.some.inj hid).symm

/-- An acceptance of a queue lane. -/
theorem delivered_acceptMessages {db db' : Database Digest} (hsound : db.Sound)
    (hunsent : db.Unsent) (hdelivered : db.Delivered) (emails : List JsString)
    {p : EmailMessage Digest → Bool} {f : EmailMessage Digest → EmailMessage Digest}
    {keep : ∀ m, (f m).id = m.id} {rest : ℕ → Transaction Digest Unit} {u : Unit}
    (h : (do
      let updated ← updateMessages p f keep
      let db ← get
      Tx.ensure (decide (db.messages.rows.filterMap EmailMessage.resendEmailId).Nodup)
        .uniqueViolation
      rest updated : Transaction Digest Unit) db = .ok (u, db'))
    (hrest : ∀ n db₁, db₁.Sound → rest n db₁ = .ok (u, db') → db₁.DeliveredBut emails →
      db'.Delivered) (hpending : ∀ m, p m = true → m.state = .pending)
    (hemails : ∀ m emailId, (f m).resendEmailId = some emailId → emailId ∈ emails)
    (hcolumns : ∀ m, (f m).delivery = { m.delivery with state := some .unknown })
    (hview : ∀ m, (f m).threadView = m.threadView)
    (hkey : ∀ m, (f m).idempotencyKey = m.idempotencyKey)
    (hshape : ∀ m, m.kindShape = true → (f m).kindShape = true) : db'.Delivered := by
  obtain ⟨n, db₁, hupdate, h⟩ := bind_eq_ok.mp h
  obtain ⟨_, _, hget, h⟩ := bind_eq_ok.mp h
  obtain ⟨rfl, rfl⟩ := get_eq_ok.mp hget
  obtain ⟨_, _, hunique, h⟩ := bind_eq_ok.mp h
  have hsound₁ : db₁.Sound :=
    DeliveryAction.sound_acceptMessages hsound hupdate (ensure_eq_ok.mp hunique).1 hview hkey hshape
  obtain ⟨-, rfl⟩ := ensure_eq_ok.mp hunique
  refine hrest n db₁ hsound₁ h ?_
  obtain ⟨-, rfl⟩ := updateMessages_eq_ok.mp hupdate
  exact deliveredBut_update hdelivered (fun m hm hp => hunsent m hm (hpending m hp))
    (fun m => congrArg ThreadView.direction (hview m)) hcolumns hemails

/-- Neither the messages nor the ledger change. -/
def DeliveryKept (db db' : Database Digest) : Prop :=
  db'.messages = db.messages ∧ db'.webhookEvents = db.webhookEvents

instance : Std.Refl (@DeliveryKept Digest) := ⟨fun _ => ⟨rfl, rfl⟩⟩

instance : IsTrans (Database Digest) DeliveryKept :=
  ⟨fun _ _ _ h h' => ⟨h'.1.trans h.1, h'.2.trans h.2⟩⟩

theorem DeliveryKept.delivered {db db' : Database Digest} (h : DeliveryKept db db')
    (hdelivered : db.Delivered) :
    db'.Delivered := by
  rw [Database.Delivered, h.1, h.2]
  exact hdelivered

theorem deliveryKept_deleteOwnedBatch (batch : ClaimedBatch Digest) :
    Preserves DeliveryKept (deleteOwnedBatch batch) :=
  .bind .get fun _ => .bind (.ensure _ _) fun _ => .modify fun _ => ⟨rfl, rfl⟩

theorem deliveryKept_deleteOwnedEntry (entry : ClaimedEntry Digest) :
    Preserves DeliveryKept (deleteOwnedEntry entry) :=
  .bind .get fun _ => .bind (.ensure _ _) fun _ => .modify fun _ => ⟨rfl, rfl⟩

theorem delivered_entry {config : Config} {claimed : ClaimedEntry Digest} {resendEmailId : JsString}
    {db db' : Database Digest} (hsound : db.Sound) (hunsent : db.Unsent)
    (hdelivered : db.Delivered) {u : Unit}
    (h : acceptEntry config claimed resendEmailId db = .ok (u, db')) : db'.Delivered := by
  obtain ⟨_, _, htexts, h⟩ := bind_eq_ok.mp h
  obtain ⟨-, rfl⟩ := checkTexts_eq_ok.mp htexts
  refine delivered_acceptMessages hsound hunsent hdelivered [resendEmailId] h
    (fun n db₁ hsound₁ h hbut => ?_) (fun m hp => ?_) (fun m emailId hid => ?_) (fun _ => rfl)
      (fun _ => rfl)
    (fun _ => rfl) fun m hm => ?_
  · obtain ⟨_, _, hcount, h⟩ := bind_eq_ok.mp h
    obtain ⟨-, rfl⟩ := ensure_eq_ok.mp hcount
    obtain ⟨_, db₂, hproject, h⟩ := bind_eq_ok.mp h
    have hledger := (failureReport_project hsound₁.resendEmailId hproject).ledger
    exact (deliveryKept_deleteOwnedEntry _ h).delivered
      (Database.deliveredBut_nil.mp (delivered_project hproject hledger hbut))
  · rw [Bool.and_eq_true, beq_iff_eq, beq_iff_eq] at hp
    exact hp.2
  · exact List.mem_singleton.mpr (Option.some.inj hid).symm
  · exact EmailMessage.kindShape_of_send hm rfl nofun rfl rfl rfl rfl rfl rfl rfl rfl

theorem delivered_batch {config : Config} {claimed : ClaimedBatch Digest}
    {resendEmailIds : List JsString} {db db' : Database Digest} (hsound : db.Sound)
    (hunsent : db.Unsent) (hdelivered : db.Delivered) {u : Unit}
    (h : finalizeAcceptedBatch config claimed resendEmailIds db = .ok (u, db')) :
    db'.Delivered := by
  obtain ⟨_, _, howner, h⟩ := bind_eq_ok.mp h
  obtain ⟨_, _, hget, howner⟩ := bind_eq_ok.mp howner
  obtain ⟨rfl, rfl⟩ := get_eq_ok.mp hget
  obtain ⟨-, rfl⟩ := ensure_eq_ok.mp howner
  obtain ⟨_, _, hsome, h⟩ := bind_eq_ok.mp h
  obtain ⟨-, rfl⟩ := ensure_eq_ok.mp hsome
  obtain ⟨_, _, htexts, h⟩ := bind_eq_ok.mp h
  obtain ⟨-, rfl⟩ := checkTexts_eq_ok.mp htexts
  refine delivered_acceptMessages hsound hunsent hdelivered resendEmailIds h
    (fun n db₁ hsound₁ h hbut => ?_) (fun m hp => ?_) (fun m emailId hid => ?_) (fun _ => rfl)
      (fun _ => rfl)
    (fun _ => rfl) fun m hm => ?_
  · obtain ⟨_, _, hcount, h⟩ := bind_eq_ok.mp h
    obtain ⟨-, rfl⟩ := ensure_eq_ok.mp hcount
    obtain ⟨_, db₂, hproject, h⟩ := bind_eq_ok.mp h
    exact (deliveryKept_deleteOwnedBatch _ h).delivered
      (delivered_reconcileAll hsound₁ hproject hbut)
  · rw [Bool.and_eq_true, beq_iff_eq] at hp
    exact hp.2
  · exact List.mem_of_getElem? hid
  · exact EmailMessage.kindShape_of_send hm rfl nofun rfl rfl rfl rfl rfl rfl rfl rfl

/-! ### Runs -/

/-- A committed action, and one that throws. -/
theorem DeliveryAction.step_delivered {config : Config} {a : DeliveryAction Digest}
    {db db' : Database Digest} (hsound : db.Sound) (hunsent : db.Unsent) (hdelivered : db.Delivered)
    (hstep : a.step config db = some db') :
    db'.Delivered := by
  have hexecute : ∀ {α : Type} {x : Transaction Digest α},
      (∀ r s, x db = .ok (r, s) → s.Delivered) → (Tx.execute x db).2.Delivered := by
    intro α x hx
    cases hrun : x db with
    | error e =>
        rw [Tx.execute, hrun]
        exact hdelivered
    | ok r =>
        obtain ⟨r, s⟩ := r
        rw [execute_of_ok hrun]
        exact hx r s hrun
  cases a with
  | webhook now svixId eventType emailId eventCreatedAt deliveryDetail =>
      rw [step, Option.some.injEq] at hstep
      subst hstep
      exact hexecute fun _ _ h => delivered_webhook hsound h hdelivered
  | sent messageId resendEmailId =>
      rw [step] at hstep
      split at hstep
      next henabled =>
        rw [Option.some.injEq] at hstep
        subst hstep
        cases hm : db.messages.get? messageId with
        | none =>
            rw [hm] at henabled
            cases henabled
        | some m =>
            rw [hm, Option.any_some, beq_iff_eq] at henabled
            exact hexecute fun _ _ h =>
              delivered_sent hsound hm (hunsent m (Table.mem_of_get? hm) henabled) h hdelivered
      next => cases hstep
  | entry claimed resendEmailId =>
      rw [step, Option.some.injEq] at hstep
      subst hstep
      exact hexecute fun _ _ h => delivered_entry hsound hunsent hdelivered h
  | batch claimed resendEmailIds =>
      rw [step, Option.some.injEq] at hstep
      subst hstep
      exact hexecute fun _ _ h => delivered_batch hsound hunsent hdelivered h

/-- A step keeps the events and the pending messages without identifiers. -/
theorem DeliveryAction.step_kept {config : Config} {a : DeliveryAction Digest}
    {db db' : Database Digest} (hsound : db.Sound) (hunsent : db.Unsent)
    (hstep : a.step config db = some db') :
    db'.Unsent ∧ ∀ e ∈ db.webhookEvents, e ∈ db'.webhookEvents := by
  rcases step_reported hsound hstep with rfl | ⟨db₁, hrecorded, hreport⟩
  · exact ⟨hunsent, fun _ he => he⟩
  · refine ⟨hreport.unsent (hrecorded.unsent hunsent), fun e he => ?_⟩
    have hmem : e ∈ db₁.webhookEvents.rows := by
      rw [hrecorded.ledger]
      exact mem_ledger_of_mem a he
    rw [hreport.ledger]
    exact hmem

/-- In every order of webhooks, repeated webhooks and acceptances: after every transaction the
delivery columns are the reduction of the ledger, no event is lost, and a webhook that is delivered
again changes neither the messages nor the ledger. -/
theorem Run.delivery_projected {config : Config} {db db' : Database Digest} (hsound : db.Sound)
    (hunsent : db.Unsent) (hdelivered : db.Delivered)
    (hrun : Run (DeliveryAction.step config) Always db db') :
    db'.Delivered ∧ (∀ e ∈ db.webhookEvents, e ∈ db'.webhookEvents) ∧
      ∀ existing ∈ db'.webhookEvents, ∀ now eventType emailId eventCreatedAt deliveryDetail db'',
        DeliveryAction.step config db'
          (.webhook now existing.svixId eventType emailId eventCreatedAt deliveryDetail) =
          some db'' → db''.messages = db'.messages ∧ db''.webhookEvents = db'.webhookEvents := by
  obtain ⟨hsound', -, hdelivered', hevents⟩ : db'.Sound ∧ db'.Unsent ∧ db'.Delivered ∧
      ∀ e ∈ db.webhookEvents, e ∈ db'.webhookEvents := by
    refine hrun.invariant (I := fun t => t.Sound ∧ t.Unsent ∧ t.Delivered ∧
      ∀ e ∈ db.webhookEvents, e ∈ t.webhookEvents) ⟨hsound, hunsent, hdelivered, fun _ he => he⟩ ?_
    rintro s a t ⟨hs, hu, hd, he⟩ - hstep
    obtain ⟨hu', he'⟩ := DeliveryAction.step_kept hs hu hstep
    exact ⟨DeliveryAction.step_sound hs hstep, hu', DeliveryAction.step_delivered hs hu hd hstep,
      fun e hmem => he' e (he e hmem)⟩
  refine ⟨hdelivered', hevents, ?_⟩
  intro existing hmem now eventType emailId eventCreatedAt deliveryDetail db'' hstep
  have hknown : db'.webhookEvents.get? existing.svixId = some existing := Table.mem_iff_get?.mp hmem
  rw [DeliveryAction.step, Option.some.injEq] at hstep
  subst hstep
  cases hresult : recordDeliveryWebhook config now existing.svixId eventType emailId eventCreatedAt
    deliveryDetail
      db' with
  | error e =>
      rw [Tx.execute, hresult]
      exact ⟨rfl, rfl⟩
  | ok result =>
      obtain ⟨u, db''⟩ := result
      rw [execute_of_ok hresult]
      obtain ⟨_, _, hget, h⟩ := bind_eq_ok.mp hresult
      obtain ⟨rfl, rfl⟩ := get_eq_ok.mp hget
      rw [hknown] at h
      exact ⟨project_delivered h hdelivered',
        (failureReport_project hsound'.resendEmailId h).ledger⟩

/-- A bounce before the acceptance, a delivery after it, and the bounce again. -/
theorem delivery_projected_reference : ∃ db db' : Database SendRequest, db.Sound ∧ db.Unsent ∧
    db.Delivered ∧ db'.Delivered ∧
    ∃ m ∈ db'.messages.rows, m.delivery = ⟨some .delivered, none, some 2, some 2⟩ := by
  obtain ⟨s, hs, ⟨hunsent, hdelivered⟩, hstate⟩ : ∃ s, Run (step .reference) Always .reference s ∧
      ((∀ m ∈ s.db.messages.rows, m.state = .pending → m.resendEmailId = none) ∧
        ∀ m ∈ s.db.messages.rows, m.direction = .outbound →
          m.delivery = ledgerDelivery s.db.webhookEvents.rows m.resendEmailId) ∧
      ((exec (DeliveryAction.step .reference) Always s.db
          [Reference.bounced, Reference.openingSent, Reference.delivered, Reference.bounced]).any
        fun db' => decide
          (∃ m ∈ db'.messages.rows, m.delivery = ⟨some .delivered, none, some 2, some 2⟩)) = true :=
    Run.exists_of_exec Reference.pendingOpening (by decide +kernel)
  cases hexec : exec (DeliveryAction.step .reference) Always s.db
      [Reference.bounced, Reference.openingSent, Reference.delivered, Reference.bounced] with
  | none =>
      rw [hexec] at hstate
      cases hstate
  | some db' =>
      rw [hexec] at hstate
      have hsound : s.db.Sound := (Reachable.of_run hs).threaded.sound
      exact ⟨s.db, db', hsound, hunsent, hdelivered,
        (Run.delivery_projected hsound hunsent hdelivered (Foundation.Run.of_exec hexec)).1,
          of_decide_eq_true hstate⟩

end ResendConversation
