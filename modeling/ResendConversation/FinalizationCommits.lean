import ResendConversation.Calls
import ResendConversation.Commits
import ResendConversation.LeaseFencing

/-! # Finalizations that commit

When the transaction that ends an attempt of a lane cannot throw.  A worker that holds its lease,
and whose messages are still pending, ends its attempt if the text that it records is storable;
an acceptance also fails for an empty batch and on an identifier that the column refuses. -/

namespace ResendConversation

open Foundation Tx

variable {Digest : Type} {rt : Runtime Digest}

/-! ### Delivery reports -/

theorem commits_markConversationTerminated (id : Uuid) (changedAt : Time) (db : Database Digest) :
    Commits (markConversationTerminated id changedAt) db :=
  .bind (commits_updateConversations _ _ _ _) fun _ _ _ => .pure _ _

theorem markConversationTerminated_found {id : Uuid} {changedAt : Time} {db db' : Database Digest}
    {changed : Bool} (h : markConversationTerminated id changedAt db = .ok (changed, db'))
    {c : Uuid} (hc : (db.conversations.get? c).isSome) : (db'.conversations.get? c).isSome := by
  simp only [markConversationTerminated, updateConversations, bind_eq_ok,
    modifyGet_eq_ok, pure_eq_ok, Prod.mk.injEq] at h
  obtain ⟨_, _, ⟨-, rfl⟩, -, rfl⟩ := h
  simpa [Table.get?_update] using hc

/-- A report about a conversation that exists. -/
theorem commits_reportDelivery {config : Config} {before : EmailMessage Digest} {c : Uuid}
    {state : EmailDeliveryState} {time : Time} {db : Database Digest} (hs : db.Sound)
    (hc : (db.conversations.get? c).isSome) :
    Commits (reportDelivery config before c state time) db := by
  have hterminate : ∀ (input : ConversationEventInput) (db₁ : Database Digest), db₁.Sound →
      input.conversationId = c → (db₁.conversations.get? c).isSome →
      Commits (do
        let stateChanged ← markConversationTerminated c time
        if stateChanged then
          let _ ← appendConversationEvent config input
          pure ()
        else pure ()) db₁ := by
    rintro input db₁ hs₁ rfl hc₁
    refine .bind (commits_markConversationTerminated _ _ _) fun changed db₂ h₂ =>
      .ite (fun _ => ?_) fun _ => .pure _ _
    have hs₂ := ((@minor_markConversationTerminated Digest id _ _) h₂).keeps hs₁
    exact .bind (commits_appendConversationEvent hs₂ (markConversationTerminated_found h₂ hc₁))
      fun _ _ _ => .pure _ _
  refine .bind (.get _) fun _ _ h => ?_
  obtain ⟨rfl, rfl⟩ := get_eq_ok.mp h
  refine .ite (fun _ => .bind (commits_appendConversationEvent hs hc) fun _ db₁ h₁ => ?_)
    fun _ => ?_
  · have hs₁ := keeps_appendConversationEvent _ _ h₁ hs
    have hc₁ := (still_appendConversationEvent _ _ h₁).found hc
    exact .ite (fun _ => hterminate _ db₁ hs₁ rfl hc₁) fun _ => .pure _ _
  · exact .ite (fun _ => hterminate _ _ hs rfl hc) fun _ => .pure _ _

theorem commits_projectOutboundDeliveryState {config : Config} {resendEmailId : JsString}
    {db : Database Digest} (hs : db.Sound) :
    Commits (projectOutboundDeliveryStateForResendEmail config resendEmailId) db := by
  refine .bind (.get _) fun _ _ h => ?_
  obtain ⟨rfl, rfl⟩ := get_eq_ok.mp h
  dsimp only
  split
  · exact .pure _ _
  · refine .bind (commits_updateMessages _ _ _ _) fun _ db₁ h₁ => ?_
    have hs₁ := ((@minor_updateDelivery Digest id _ _ _ _ _) h₁).keeps hs
    split
    · exact .pure _ _
    next before hbefore =>
      split
      · exact .pure _ _
      next c hc =>
        refine commits_reportDelivery hs₁ ?_
        obtain ⟨-, rfl⟩ := updateMessages_eq_ok.mp h₁
        exact hs.placed before (List.mem_of_find?_eq_some hbefore) c hc

theorem commits_reconcileAll {config : Config} (ids : List JsString) {db : Database Digest}
    (hs : db.Sound) : Commits (reconcileAll config ids) db := by
  induction ids generalizing db with
  | nil => exact .pure _ _
  | cons id ids ih =>
      refine .bind (commits_projectOutboundDeliveryState hs) fun _ db₁ h₁ => ih ?_
      exact ((@minor_projectOutboundDeliveryState Digest (fun x => x) _ _) h₁).keeps hs

/-! ### The claim of a worker -/

/-- The claim of a worker as it still stands: its token is on the row of the batch, and its
messages are pending. -/
structure ClaimedBatch.Stands (batch : ClaimedBatch Digest) (db : Database Digest) : Prop where
  owned : ∃ b ∈ db.outboxBatches, batch.owned b = true
  nodup : batch.messageIds.Nodup
  pending : ∀ id ∈ batch.messageIds, ∃ m, db.messages.get? id = some m ∧ m.state = .pending

/-- The identifiers that the unique column accepts for the messages of a batch. -/
structure ClaimedBatch.Storable (batch : ClaimedBatch Digest) (db : Database Digest)
    (ids : List JsString) :
    Prop where
  nodup : ids.Nodup
  free : ∀ m ∈ db.messages, m.id ∉ batch.messageIds → ∀ id ∈ ids, m.resendEmailId ≠ some id
  storable : ids.all JsString.storable = true

/-- The text that the decision records is storable. -/
def BatchDecision.Recordable : BatchDecision → Prop
  | .accept _ => True
  | .fail errorCode => errorCode.storable = true
  | .indeterminate detail => detail.storable = true
  | .retry errorCode => JsString.storable (errorCode.take 64) = true

namespace ClaimedBatch.Stands

variable {batch : ClaimedBatch Digest} {db : Database Digest}

theorem count_owned (h : batch.Stands db) : db.outboxBatches.count batch.owned = 1 := by
  obtain ⟨b, hb, ho⟩ := h.owned
  obtain ⟨hid, -⟩ := ClaimedBatch.owned_iff.mp ho
  refine Table.count_eq_length (List.nodup_singleton batch.id) (fun r hr => ?_) fun k hk => ?_
  · rw [List.mem_singleton]
    constructor
    · exact fun hor => (ClaimedBatch.owned_iff.mp hor).1
    · intro hr'
      rwa [Table.key_inj hr hb (hr'.trans hid.symm)]
  · rw [List.mem_singleton] at hk
    exact ⟨b, hb, hid.trans hk.symm⟩

/-- The messages that the acceptance of the batch updates. -/
theorem selects (h : batch.Stands db) {m : EmailMessage Digest} (hm : m ∈ db.messages) :
    (batch.messageIds.contains m.id && m.state == .pending) = true ↔ m.id ∈ batch.messageIds := by
  simp only [Bool.and_eq_true, List.contains_iff_mem, beq_iff_eq, and_iff_left_iff_imp]
  intro hid
  obtain ⟨n, hn, hp⟩ := h.pending m.id hid
  obtain rfl : m = n := Option.some.inj ((Table.mem_iff_get?.mp hm).symm.trans hn)
  exact hp

theorem count_pending (h : batch.Stands db) :
    (db.messages.count fun m => batch.messageIds.contains m.id && m.state == .pending) =
      batch.messages.length := by
  rw [Table.count_eq_length h.nodup (fun m hm => h.selects hm) fun id hid => ?_]
  · exact List.length_map _
  · obtain ⟨m, hm, -⟩ := h.pending id hid
    exact ⟨m, Table.mem_of_get? hm, Table.key_of_get? hm⟩

/-- The row of the claimed message at a position of the batch. -/
theorem found_at (h : batch.Stands db) {i : ℕ} (hi : i < batch.messageIds.length) :
    ∃ m ∈ db.messages, m.id = batch.messageIds[i] ∧ batch.messageIds.idxOf m.id = i := by
  obtain ⟨m, hm, -⟩ := h.pending _ (List.getElem_mem hi)
  have hid := Table.key_of_get? hm
  exact ⟨m, Table.mem_of_get? hm, hid, by rw [hid]; exact h.nodup.idxOf_getElem i hi⟩

end ClaimedBatch.Stands

/-! ### Acceptances -/

theorem storable_requestFailed {errorCode : JsString} :
    (js "Resend batch request failed (" ++ errorCode ++ js ")").storable = true ↔
      errorCode.storable = true := by
  rw [JsString.storable_append, JsString.storable_append]
  exact ⟨fun h => h.1.2, fun h => ⟨⟨by decide, h⟩, by decide⟩⟩

theorem nodup_of_distinct {db : Database Digest} (h : db.Distinct EmailMessage.resendEmailId) :
    (db.messages.rows.filterMap EmailMessage.resendEmailId).Nodup := by
  refine List.pairwise_filterMap.mpr (List.Pairwise.imp_of_mem ?_ db.messages.nodup.of_map)
  rintro m n hm hn hne id hid id' hid' rfl
  exact hne (h m hm n hn (by rw [hid]; rfl) (hid.trans hid'.symm))

section Accepted

variable {batch : ClaimedBatch Digest} {db : Database Digest} {ids : List JsString}
  {p : EmailMessage Digest → Bool} {f : EmailMessage Digest → EmailMessage Digest}
  {keep : ∀ m, (f m).id = m.id}

/-- The identifier that the claimed message at a position is accepted under. -/
theorem acceptedId_eq {m : EmailMessage Digest} {i : ℕ} (hm : batch.messageIds.idxOf m.id = i)
    (hi : i < ids.length) : acceptedId batch ids m.id = some ids[i] := by
  rw [acceptedId, hm]
  exact List.getElem?_eq_getElem hi

/-- Where the column is unique after an acceptance, the identifiers were free. -/
theorem ClaimedBatch.Stands.free (h : batch.Stands db)
    (hlength : ids.length = batch.messageIds.length)
    (hp : ∀ m ∈ db.messages, p m = true ↔ m.id ∈ batch.messageIds)
    (hf : ∀ m, (f m).resendEmailId = acceptedId batch ids m.id)
    (hd : Database.Distinct { db with messages := db.messages.update p f keep }
      EmailMessage.resendEmailId) :
    ids.Nodup ∧ ∀ m ∈ db.messages, m.id ∉ batch.messageIds →
      ∀ id ∈ ids, m.resendEmailId ≠ some id := by
  have hin : ∀ i, ∀ hi : i < ids.length, ∃ m ∈ db.messages.update p f keep,
      m.id = batch.messageIds[i] ∧ batch.messageIds.idxOf m.id = i ∧
        m.resendEmailId = some ids[i] := by
    intro i hi
    obtain ⟨m, hm, hid, hidx⟩ := h.found_at (hlength ▸ hi)
    refine ⟨f m, Table.mem_update.mpr ⟨m, hm, if_pos ((hp m hm).mpr ?_)⟩, ?_, ?_, ?_⟩
    · rw [hid]
      exact List.getElem_mem _
    · rw [keep, hid]
    · rw [keep, hidx]
    · rw [hf, acceptedId_eq hidx hi]
  refine ⟨List.nodup_iff_injective_getElem.mpr fun i j hij => Fin.ext ?_,
    fun m hm hid id hmem heq => ?_⟩
  · obtain ⟨m, hm, -, hmi, hmcol⟩ := hin i i.2
    obtain ⟨n, hn, -, hnj, hncol⟩ := hin j j.2
    have hsame :=
      hd m hm n hn (by rw [hmcol]; rfl) (hmcol.trans ((congrArg some hij).trans hncol.symm))
    rw [← hmi, hsame, hnj]
  · obtain ⟨i, hi, rfl⟩ := List.getElem_of_mem hmem
    obtain ⟨n, hn, hnid, -, hncol⟩ := hin i hi
    have hout : m ∈ db.messages.update p f keep :=
      Table.mem_update.mpr ⟨m, hm, if_neg fun hpm => hid ((hp m hm).mp hpm)⟩
    have hsame := hd m hout n hn (by rw [heq]; rfl) (heq.trans hncol.symm)
    rw [hsame, hnid] at hid
    exact hid (List.getElem_mem _)

variable (f keep) in
/-- Storable identifiers keep the column unique. -/
theorem ClaimedBatch.Storable.distinct (h : batch.Storable db ids)
    (hdistinct : db.Distinct EmailMessage.resendEmailId)
    (hlength : ids.length = batch.messageIds.length)
    (hp : ∀ m ∈ db.messages, p m = true ↔ m.id ∈ batch.messageIds)
    (hf : ∀ m, (f m).resendEmailId = acceptedId batch ids m.id) :
    Database.Distinct { db with messages := db.messages.update p f keep }
      EmailMessage.resendEmailId := by
  obtain ⟨hnodup, hfree, -⟩ := h
  have hcol : ∀ m, m.id ∈ batch.messageIds → ∃ hi : batch.messageIds.idxOf m.id < ids.length,
      (f m).resendEmailId = some ids[batch.messageIds.idxOf m.id] := fun m hm =>
    have hi := hlength ▸ List.idxOf_lt_length_of_mem hm
    ⟨hi, by rw [hf, acceptedId_eq rfl hi]⟩
  have hmem : ∀ m' ∈ db.messages.update p f keep, ∃ m ∈ db.messages,
      (if p m then f m else m) = m' :=
    fun _ h' => Table.mem_update.mp h'
  intro m' hm' n' hn' hsome heq
  obtain ⟨m, hm, rfl⟩ := hmem m' hm'
  obtain ⟨n, hn, rfl⟩ := hmem n' hn'
  suffices m = n by rw [this]
  by_cases hmb : m.id ∈ batch.messageIds
  · rw [if_pos ((hp m hm).mpr hmb)] at heq
    obtain ⟨hi, hmcol⟩ := hcol m hmb
    rw [hmcol] at heq
    by_cases hnb : n.id ∈ batch.messageIds
    · rw [if_pos ((hp n hn).mpr hnb)] at heq
      obtain ⟨hj, hncol⟩ := hcol n hnb
      rw [hncol] at heq
      have hidx := hnodup.getElem_inj_iff.mp (Option.some.inj heq)
      exact Table.key_inj hm hn ((List.idxOf_inj hmb).mp hidx)
    · rw [if_neg fun hpn => hnb ((hp n hn).mp hpn)] at heq
      exact absurd heq.symm (hfree n hn hnb _ (List.getElem_mem _))
  · rw [if_neg fun hpm => hmb ((hp m hm).mp hpm)] at heq hsome
    by_cases hnb : n.id ∈ batch.messageIds
    · rw [if_pos ((hp n hn).mpr hnb)] at heq
      obtain ⟨hj, hncol⟩ := hcol n hnb
      rw [hncol] at heq
      exact absurd heq (hfree m hm hmb _ (List.getElem_mem _))
    · rw [if_neg fun hpn => hnb ((hp n hn).mp hpn)] at heq
      exact hdistinct m hm n hn hsome heq

end Accepted

/-! ### The transactions -/

section Transactions

variable {config : Config} {now : Time} {batch : ClaimedBatch Digest} {db : Database Digest}

theorem commits_assertLeaseOwner (h : batch.Stands db) : Commits (assertLeaseOwner batch) db := by
  refine .bind (.get _) fun _ _ hget => .ensure ?_ _ _
  obtain ⟨rfl, rfl⟩ := get_eq_ok.mp hget
  exact List.any_eq_true.mpr h.owned

theorem commits_deleteOwnedBatch (h : db.outboxBatches.count batch.owned = 1) :
    Commits (deleteOwnedBatch batch) db := by
  refine .bind (.get _) fun _ _ hget => .bind (.ensure ?_ _ _) fun _ _ _ => .modify _ _
  obtain ⟨rfl, rfl⟩ := get_eq_ok.mp hget
  rw [h]
  rfl

theorem checkText_eq_ok {text : JsString} {db db' : Database Digest} {u : Unit} :
    checkTexts [text] db = .ok (u, db') ↔ text.storable = true ∧ db = db' := by
  rw [checkTexts_eq_ok]
  simp

theorem commits_finalizeTerminalBatch_iff (h : batch.Stands db) (state : EmailMessageState)
    {detail : JsString} :
    Commits (finalizeTerminalBatch batch state detail) db ↔ detail.storable = true := by
  constructor
  · rintro ⟨u, db', hok⟩
    simp only [finalizeTerminalBatch, bind_eq_ok, checkText_eq_ok] at hok
    obtain ⟨-, -, -, -, -, ⟨hdetail, -⟩, -⟩ := hok
    exact hdetail
  · intro hdetail
    refine .bind (commits_assertLeaseOwner h) fun _ db₁ h₁ =>
      .bind ⟨(), db₁, checkText_eq_ok.mpr ⟨hdetail, rfl⟩⟩ fun _ db₂ h₂ =>
        .bind (commits_updateMessages _ _ _ _) fun _ db₃ h₃ => commits_deleteOwnedBatch ?_
    obtain ⟨rfl, -⟩ := assertLeaseOwner_eq_ok h₁
    obtain ⟨-, rfl⟩ := checkText_eq_ok.mp h₂
    obtain ⟨-, rfl⟩ := updateMessages_eq_ok.mp h₃
    exact h.count_owned

theorem commits_rescheduleBatch_iff (h : batch.Stands db) {errorCode : JsString} :
    Commits (rescheduleBatch now batch errorCode) db ↔
      JsString.storable (errorCode.take 64) = true := by
  constructor
  · rintro ⟨u, db', hok⟩
    simp only [rescheduleBatch, bind_eq_ok, checkText_eq_ok] at hok
    obtain ⟨-, -, ⟨hcode, -⟩, -⟩ := hok
    exact hcode
  · intro hcode
    refine .bind ⟨(), db, checkText_eq_ok.mpr ⟨hcode, rfl⟩⟩ fun _ _ htexts =>
      .bind (.get _) fun _ _ hget => .bind (.ensure ?_ _ _) fun _ _ _ => .modify _ _
    obtain ⟨-, rfl⟩ := checkText_eq_ok.mp htexts
    obtain ⟨rfl, rfl⟩ := get_eq_ok.mp hget
    rw [h.count_owned]
    rfl

theorem commits_finalizeAcceptedBatch (hs : db.Sound) (h : batch.Stands db) {ids : List JsString}
    (hlength : ids.length = batch.messageIds.length) (hne : batch.messages ≠ [])
    (hstorable : batch.Storable db ids) : Commits (finalizeAcceptedBatch config batch ids) db := by
  have hdistinct := hstorable.distinct (fun m => { m with
      state := .accepted
      stateDetail := none
      deliveryState := some .unknown
      resendEmailId := acceptedId batch ids m.id }) (fun _ => rfl)
    hs.resendEmailId hlength (fun m hm => h.selects hm) fun m => rfl
  have hsound := hs.updateMessages hdistinct (fun _ => rfl) (fun _ => rfl)
    (fun m hm _ => hs.placed m hm) (fun m hm _ => hs.parent m hm) fun m hm _ =>
      EmailMessage.kindShape_of_send (hs.shape m hm) rfl nofun rfl rfl rfl rfl rfl rfl rfl rfl
  have hcount := h.count_pending
  refine .bind (commits_assertLeaseOwner h) fun _ db₁ h₁ => ?_
  obtain ⟨rfl, -⟩ := assertLeaseOwner_eq_ok h₁
  refine .bind (.ensure (by simpa using hne) _ _) fun _ _ h₂ => ?_
  obtain ⟨-, rfl⟩ := ensure_eq_ok.mp h₂
  refine .bind (.ensure hstorable.storable _ _) fun _ _ htexts => ?_
  obtain ⟨-, rfl⟩ := checkTexts_eq_ok.mp htexts
  refine .bind (commits_updateMessages _ _ _ _) fun updated _ h₃ => ?_
  obtain ⟨rfl, rfl⟩ := updateMessages_eq_ok.mp h₃
  refine .bind (.get _) fun _ _ hget => ?_
  obtain ⟨rfl, rfl⟩ := get_eq_ok.mp hget
  refine .bind (.ensure (decide_eq_true (nodup_of_distinct hdistinct)) _ _) fun _ _ h₄ => ?_
  obtain ⟨-, rfl⟩ := ensure_eq_ok.mp h₄
  refine .bind (.ensure (by rw [hcount]; exact beq_self_eq_true _) _ _) fun _ _ h₅ => ?_
  obtain ⟨-, rfl⟩ := ensure_eq_ok.mp h₅
  refine .bind (commits_reconcileAll ids hsound) fun _ db₂ h₆ => commits_deleteOwnedBatch ?_
  rw [(quiet_reconcileAll _ _ h₆).batches]
  exact h.count_owned

theorem storable_of_finalizeAcceptedBatch (h : batch.Stands db) {ids : List JsString}
    (hlength : ids.length = batch.messageIds.length)
    (hc : Commits (finalizeAcceptedBatch config batch ids) db) :
    batch.messages ≠ [] ∧ batch.Storable db ids := by
  obtain ⟨u, db', hok⟩ := hc
  simp only [finalizeAcceptedBatch, bind_eq_ok, checkTexts_eq_ok, updateMessages_eq_ok, get_eq_ok,
    ensure_eq_ok] at hok
  obtain ⟨_, _, h₁, _, _, ⟨hne, rfl⟩, _, _, ⟨hstorable, rfl⟩, _, _, ⟨-, rfl⟩, _, _,
      ⟨rfl, rfl⟩, _, _,
    ⟨hnodup, rfl⟩, -⟩ := hok
  obtain ⟨rfl, -⟩ := assertLeaseOwner_eq_ok h₁
  obtain ⟨hdistinct, hfree⟩ := h.free hlength (fun m hm => h.selects hm) (fun m => rfl)
    (distinct_of_nodup (of_decide_eq_true hnodup))
  exact ⟨by simpa using hne, hdistinct, hfree, hstorable⟩

/-- A finalization under a standing claim throws if and only if it records a text that is
refused, or accepts an empty batch or identifiers that the column refuses. -/
theorem commits_finalizeBatch_iff (hs : db.Sound) (h : batch.Stands db) {decision : BatchDecision}
    (hlength : ∀ ids, decision = .accept ids → ids.length = batch.messageIds.length) :
    Commits (finalizeBatch config now batch decision) db ↔ decision.Recordable ∧
      ∀ ids, decision = .accept ids → batch.messages ≠ [] ∧ batch.Storable db ids := by
  cases decision with
  | accept ids =>
      constructor
      · intro hc
        refine ⟨trivial, ?_⟩
        rintro _ ⟨⟩
        exact storable_of_finalizeAcceptedBatch h (hlength ids rfl) hc
      · rintro ⟨-, haccept⟩
        obtain ⟨hne, hstorable⟩ := haccept ids rfl
        exact commits_finalizeAcceptedBatch hs h (hlength ids rfl) hne hstorable
  | fail errorCode =>
      exact (commits_finalizeTerminalBatch_iff h _).trans <| storable_requestFailed.trans
        ⟨fun hcode => ⟨hcode, nofun⟩, fun hcode => hcode.1⟩
  | indeterminate detail =>
      exact (commits_finalizeTerminalBatch_iff h _).trans
        ⟨fun hdetail => ⟨hdetail, nofun⟩, fun hdetail => hdetail.1⟩
  | retry errorCode =>
      exact (commits_rescheduleBatch_iff h).trans
        ⟨fun hcode => ⟨hcode, nofun⟩, fun hcode => hcode.1⟩

end Transactions

end ResendConversation
