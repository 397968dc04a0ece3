import Mathlib.Data.List.Perm.Subperm
import ResendConversation.ProcessFrames
import ResendConversation.StatementRows

/-! # Claimed uploads

A send transaction binds the uploads that its request refers to, all of them or none: the
conditional update of `claimAttachmentsForMessage` locks the rows that it selects until the
commit, so that the transaction is one step.  `ClaimsHold` collects what follows for every
interleaving of sends, upload requests and reapers: an upload belongs to one message for good,
a send that stored its message bound exactly the uploads it refers to, a send that did not
changed nothing, and the expiry deletes no upload that is bound. -/

namespace ResendConversation

open Foundation Tx

variable {Digest : Type} {rt : Runtime Digest} {G : Grant Digest} {db db' : Database Digest}

/-! ### Drawn identifiers -/

/-- The identifiers of attachments and of the messages they are bound to are drawn, and uploads
are not leased. -/
structure Database.Filed (db : Database Digest) : Prop where
  attachment : ∀ a ∈ db.attachments, a.id < db.nextId
  message : ∀ m ∈ db.messages, m.id < db.nextId
  bound : ∀ a ∈ db.attachments, ∀ m, a.messageId = some m → m < db.nextId
  upload : ∀ a ∈ db.attachments, a.source = .upload → a.leaseToken = none

theorem Statement.nextId_le (h : Statement G db db') : db.nextId ≤ db'.nextId :=
  nextId_le_performs (.single h)

theorem Statement.filed (h : Statement G db db') (hf : db.Filed) : db'.Filed where
  attachment := by
    intro a' ha'
    cases h.attachments_change with
    | insert a drawn id lease inserted insert =>
        rcases (Table.mem_insert? insert).mp ha' with ha' | rfl
        · exact (hf.attachment a' ha').trans_le h.nextId_le
        · exact id.trans_lt drawn
    | same eq => exact (hf.attachment a' (eq ▸ ha')).trans_le h.nextId_le
    | rewrite p f keep rewritten eq =>
        rw [eq, Table.mem_update] at ha'
        obtain ⟨a, ha, rfl⟩ := ha'
        rw [Table.key_ite keep]
        exact (hf.attachment a ha).trans_le h.nextId_le
    | delete p dropped eq =>
        rw [eq, Table.mem_delete] at ha'
        exact (hf.attachment a' ha'.1).trans_le h.nextId_le
  message := by
    intro m' hm'
    cases h.messages_change with
    | insert m drawn inserted insert =>
        rcases (Table.mem_insert? insert).mp hm' with hm' | rfl
        · exact (hf.message m' hm').trans_le h.nextId_le
        · exact inserted.id.trans_lt drawn
    | same eq => exact (hf.message m' (eq ▸ hm')).trans_le h.nextId_le
    | rewrite p f keep rewritten eq =>
        rw [eq, Table.mem_update] at hm'
        obtain ⟨m, hm, rfl⟩ := hm'
        rw [Table.key_ite keep]
        exact (hf.message m hm).trans_le h.nextId_le
    | delete ids granted eq =>
        rw [eq, Table.mem_update] at hm'
        obtain ⟨m, hm, rfl⟩ := hm'
        have hlt := (hf.message m (Table.mem_delete.mp hm).1).trans_le h.nextId_le
        split
        · exact hlt
        · exact hlt
  bound := by
    intro a' ha' m hm
    rcases h.attachment_origin ha' with ⟨a, ha, hrewritten⟩ | ⟨-, -, hinserted⟩
    · have hold : ∀ m, a.messageId = some m → m < db'.nextId := fun m hm =>
        (hf.bound a ha m hm).trans_le h.nextId_le
      cases hrewritten with
      | bind messageId granted drawn unbound source stored =>
          cases hm
          exact drawn.trans_le h.nextId_le
      | advance _ _ working frame =>
          rw [frame] at hm
          exact hold m hm
      | _ => exact hold m hm
    · cases hinserted with
      | attach key source state unleased attempts bound =>
          obtain ⟨row, hrow⟩ := Option.isSome_iff_exists.mp (bound m hm)
          have hid := hf.message row (Table.mem_of_get? hrow)
          rw [Table.key_of_get? hrow] at hid
          exact hid.trans_le h.nextId_le
      | upload granted source state unbound free =>
          rw [unbound] at hm
          cases hm
  upload := by
    intro a' ha' hsource
    rcases h.attachment_origin ha' with ⟨a, ha, hrewritten⟩ | ⟨-, hlease, -⟩
    · have hold := hf.upload a ha
      cases hrewritten with
      | advance _ _ working frame =>
          rw [frame] at hsource
          rcases working with hinbound | hleased
          · exact absurd (hinbound.symm.trans hsource) (by decide)
          · rw [hold hsource] at hleased
            cases hleased
      | _ => exact hold hsource
    · exact hlease

theorem Performs.filed (h : Performs G db db') (hf : db.Filed) : db'.Filed :=
  h.invariant hf fun _ _ hf hs => hs.filed hf

theorem Reachable.filed [DecidableEq Digest] {s : System Digest} (h : Reachable rt s) :
    s.db.Filed := by
  obtain ⟨config, now, hrun⟩ := h
  refine hrun.invariant (I := fun s => s.db.Filed) ?_ fun _ _ _ hf _ hs =>
    (step_performs hs).filed hf
  constructor <;> intro x hx <;> cases hx

/-! ### Bound once -/

/-- An attachment that belongs to a message belongs to it for good. -/
structure Attached (db db' : Database Digest) : Prop where
  nextId_le : db.nextId ≤ db'.nextId
  kept : ∀ a' ∈ db'.attachments, a'.id < db.nextId → ∃ a ∈ db.attachments, a.id = a'.id ∧
    ∀ m, a.messageId = some m → a'.messageId = some m

instance : Std.Refl (@Attached Digest) where
  refl _ := ⟨le_rfl, fun a ha _ => ⟨a, ha, rfl, fun _ h => h⟩⟩

instance : IsTrans (Database Digest) Attached where
  trans a b c hab hbc := by
    refine ⟨hab.nextId_le.trans hbc.nextId_le, fun x'' hx'' hlt => ?_⟩
    obtain ⟨x', hx', hid', hkept'⟩ := hbc.kept x'' hx'' (hlt.trans_le hab.nextId_le)
    obtain ⟨x, hx, hid, hkept⟩ := hab.kept x' hx' (hid' ▸ hlt)
    exact ⟨x, hx, hid.trans hid', fun m hm => hkept' m (hkept m hm)⟩

theorem Statement.attached (h : Statement G db db') : Attached db db' := by
  refine ⟨h.nextId_le, fun a' ha' hlt => ?_⟩
  rcases h.attachment_origin ha' with ⟨a, ha, hrewritten⟩ | ⟨hid, -, -⟩
  · refine ⟨a, ha, hrewritten.id_eq.symm, fun m hm => ?_⟩
    cases hrewritten with
    | bind messageId granted drawn unbound source stored =>
        rw [unbound] at hm
        cases hm
    | advance _ _ working frame =>
        rw [frame]
        exact hm
    | _ => exact hm
  · exact absurd hid hlt.ne

theorem Performs.attached (h : Performs G db db') : Attached db db' :=
  (h.relates (I := fun _ => True) trivial fun _ _ _ hs => ⟨trivial, hs.attached⟩).2

/-! ### The binding update -/

/-- What a successful claim did: the uploads were free and are bound to the message now, in
whose rows only the content columns differ, and nothing else changed. -/
structure UploadsClaimed (limit : ℕ) (ids : List Uuid) (messageId : Uuid)
    (db db' : Database Digest) :
    Prop where
  nodup : ids.Nodup
  claimed : ∀ k ∈ ids, ∃ a a', db.attachments.get? k = some a ∧ a.messageId = none ∧
    a.source = .upload ∧ a.state = .stored ∧ db'.attachments.get? k = some a' ∧
      a' = { a with
        messageId := some messageId
        contentId := a'.contentId
        contentDisposition := a'.contentDisposition }
  others : ∀ k, k ∉ ids → db'.attachments.get? k = db.attachments.get? k
  total : ((db'.attachments.select fun a => a.messageId == some messageId).map
    EmailAttachment.sizeBytes).sum ≤ limit

/-- A conditional update that counts as many rows as identifiers found each of them. -/
theorem found_of_count {t : Table EmailAttachment.id} {ids : List Uuid} {q : EmailAttachment → Bool}
    (h : t.count (fun a => ids.contains a.id && q a) = ids.length) :
    ids.Nodup ∧ ∀ k ∈ ids, ∃ a, t.get? k = some a ∧ q a = true := by
  have hnodup := t.nodup_map_select fun a => ids.contains a.id && q a
  have hsub : (t.select fun a => ids.contains a.id && q a).map EmailAttachment.id ⊆ ids := by
    intro k hk
    obtain ⟨a, ha, rfl⟩ := List.mem_map.mp hk
    have hp := (Table.mem_select.mp ha).2
    simp only [Bool.and_eq_true, List.contains_iff_mem] at hp
    exact hp.1
  have hlength : ids.length ≤
      ((t.select fun a => ids.contains a.id && q a).map EmailAttachment.id).length := by
    rw [List.length_map]
    exact h.ge
  have hperm := (List.subperm_of_subset hnodup hsub).perm_of_length_le hlength
  refine ⟨hperm.nodup_iff.mp hnodup, fun k hk => ?_⟩
  obtain ⟨a, ha, rfl⟩ := List.mem_map.mp (hperm.mem_iff.mpr hk)
  obtain ⟨ha, hp⟩ := Table.mem_select.mp ha
  simp only [Bool.and_eq_true] at hp
  exact ⟨a, Table.mem_iff_get?.mp ha, hp.2⟩

/-- Only the content columns of the given rows are written. -/
def Labelled (ids : List Uuid) (db db' : Database Digest) : Prop :=
  ∃ t, db' = { db with attachments := t } ∧ ∀ k, (k ∉ ids → t.get? k = db.attachments.get? k) ∧
    ∀ a, db.attachments.get? k = some a → ∃ a', t.get? k = some a' ∧
      a' = { a with contentId := a'.contentId, contentDisposition := a'.contentDisposition }

theorem labelled_setContentIds {messageId : Uuid} {ids : List Uuid}
    {refs : List EmailAttachmentRefInput} (hids : ∀ ref ∈ refs, ref.id ∈ ids) {u : Unit}
    (h : setContentIds messageId refs db = .ok (u, db')) :
    Labelled ids db db' := by
  induction refs generalizing db with
  | nil =>
      obtain ⟨-, rfl⟩ := pure_eq_ok.mp h
      exact ⟨_, rfl, fun k => ⟨fun _ => rfl, fun a ha => ⟨a, ha, rfl⟩⟩⟩
  | cons ref refs ih =>
      simp only [setContentIds, bind_eq_ok, updateAttachments, modifyGet_eq_ok, Prod.mk.injEq] at h
      obtain ⟨_, _, ⟨-, rfl⟩, h⟩ := h
      obtain ⟨t, rfl, ht⟩ := ih (fun r hr => hids r (List.mem_cons_of_mem _ hr)) h
      have hmem := hids ref List.mem_cons_self
      refine ⟨t, rfl, fun k => ⟨fun hk => ?_, fun a ha => ?_⟩⟩
      · rw [(ht k).1 hk, Table.get?_update]
        cases ha : db.attachments.get? k with
        | none => rfl
        | some a =>
            have hne : a.id ≠ ref.id := by
              rw [Table.key_of_get? ha]
              rintro rfl
              exact hk hmem
            simp [hne]
      · have hrow := @Table.get?_update _ _ _ _ db.attachments
          (fun a => a.id == ref.id && a.messageId == some messageId)
          (fun a => { a with contentId := ref.contentId, contentDisposition := .inline })
          (fun _ => rfl) k
        rw [ha, Option.map_some] at hrow
        obtain ⟨a', ha', heq⟩ := (ht k).2 _ hrow
        refine ⟨a', ha', heq.trans ?_⟩
        split <;> rfl

theorem claimAttachmentsForMessage_claimed {config : Config} {messageId : Uuid}
    {refs : Option (List EmailAttachmentRefInput)} {n : ℕ}
    (hfree : ∀ a ∈ db.attachments, a.messageId ≠ some messageId)
    (h : claimAttachmentsForMessage config messageId refs db = .ok (n, db')) :
    UploadsClaimed config.maxTotalBytes ((refs.getD []).map EmailAttachmentRefInput.id) messageId
      db db' := by
  have hnone : refs.getD [] = [] → db' = db →
      UploadsClaimed config.maxTotalBytes ((refs.getD []).map EmailAttachmentRefInput.id) messageId
        db db' := by
    rintro hrefs rfl
    rw [hrefs]
    have hselect : (db'.attachments.select fun a => a.messageId == some messageId) = [] :=
      List.filter_eq_nil_iff.mpr fun a ha => by simpa using hfree a ha
    exact ⟨List.nodup_nil, (fun k hk => by cases hk), fun k _ => rfl, by simp [hselect]⟩
  unfold claimAttachmentsForMessage at h
  split at h
  · exact hnone rfl (pure_eq_ok.mp h).2.symm
  · exact hnone rfl (pure_eq_ok.mp h).2.symm
  next refs _ =>
    simp only [bind_eq_ok, ensure_eq_ok, updateAttachments, modifyGet_eq_ok, get_eq_ok, pure_eq_ok,
      Prod.mk.injEq] at h
    obtain ⟨_, _, ⟨-, rfl⟩, _, _, ⟨rfl, rfl⟩, _, _, ⟨hcount, rfl⟩, _, db₁, hset, _, _,
        ⟨rfl, rfl⟩, _, _,
      ⟨htotal, rfl⟩, -, rfl⟩ := h
    simp only [beq_iff_eq] at hcount
    have hcount' :
        db.attachments.count (fun a => (refs.map EmailAttachmentRefInput.id).contains a.id &&
        (a.messageId.isNone && a.source == .upload && a.state == .stored)) =
          (refs.map EmailAttachmentRefInput.id).length := by
      rw [← hcount]
      congr 1
      funext a
      simp only [Bool.and_assoc]
    obtain ⟨hnodup, hfound⟩ := found_of_count hcount'
    obtain ⟨t, rfl, ht⟩ : Labelled (refs.map EmailAttachmentRefInput.id) _ db₁ :=
      labelled_setContentIds (fun ref href => List.mem_map_of_mem (List.mem_filter.mp href).1) hset
    have hbound := @Table.get?_update _ _ _ _ db.attachments
      (fun a => (refs.map EmailAttachmentRefInput.id).contains a.id && a.messageId.isNone &&
        a.source == .upload && a.state == .stored)
      (fun a => { a with messageId := some messageId }) (fun _ => rfl)
    refine ⟨hnodup, fun k hk => ?_, fun k hk => ?_, by simpa using htotal⟩
    · obtain ⟨a, ha, hq⟩ := hfound k hk
      have hrow := hbound k
      have hid := Table.key_of_get? ha
      have hmem : (refs.map EmailAttachmentRefInput.id).contains a.id = true := by
        rw [hid]
        exact List.contains_iff_mem.mpr hk
      rw [ha, Option.map_some, if_pos
        (by simp only [Bool.and_assoc, hmem, Bool.true_and]; simpa [Bool.and_assoc] using hq)]
        at hrow
      obtain ⟨a', ha', heq⟩ := (ht k).2 _ hrow
      simp only [Bool.and_eq_true, Option.isNone_iff_eq_none, beq_iff_eq] at hq
      exact ⟨a, a', ha, hq.1.1, hq.1.2, hq.2, ha', heq⟩
    · refine ((ht k).1 hk).trans ((hbound k).trans ?_)
      cases ha : db.attachments.get? k with
      | none => rfl
      | some a =>
          have hid := Table.key_of_get? ha
          simp only [Option.map_some, hid, Option.some.injEq, ite_eq_right_iff, Bool.and_eq_true,
            List.contains_iff_mem]
          exact fun hp => absurd hp.1.1.1 hk

/-- Around the claim, the transaction leaves attachments alone. -/
theorem UploadsClaimed.of_eq {limit : ℕ} {ids : List Uuid} {messageId : Uuid}
    {db₁ db₂ : Database Digest} (h : UploadsClaimed limit ids messageId db₁ db₂)
    (before : db₁.attachments = db.attachments) (after : db'.attachments = db₂.attachments) :
    UploadsClaimed limit ids messageId db db' where
  nodup := h.nodup
  claimed := by
    rw [← before, after]
    exact h.claimed
  others := by
    rw [← before, after]
    exact h.others
  total := by
    rw [after]
    exact h.total

/-! ### The send transactions -/

/-- The uploads that a request refers to. -/
def SendRequest.uploadIds (request : SendRequest) : List Uuid :=
  (request.attachments.getD []).map EmailAttachmentRefInput.id

/-- A send transaction stored one message and bound exactly the uploads of its request to it. -/
def SendClaimed (config : Config) (request : SendRequest) (db db' : Database Digest) : Prop :=
  ∃ m, db.messages.get? m.id = none ∧
    (∀ k, db'.messages.get? k = if m.id = k then some m else db.messages.get? k) ∧
      UploadsClaimed config.maxTotalBytes request.uploadIds m.id db db'

/-- The insertion of a message and the claim of its uploads, with other statements around them. -/
theorem sendClaimed_of {ctx : SendContext Digest} {row : Uuid → EmailMessage Digest} {n : ℕ}
    {refs : Option (List EmailAttachmentRefInput)} (hrefs : ctx.request.attachments = refs)
    (hid : ∀ id, (row id).id = id) {db₁ db₂ db₃ : Database Digest} (hf : db.Filed)
    (before : Logged db db₁) (created : OutboundCreated ctx row db₁ db₂)
    (claim : claimAttachmentsForMessage ctx.config db₁.nextId refs db₂ = .ok (n, db₃))
    (after : Logged db₃ db') : SendClaimed ctx.config ctx.request db db' := by
  subst hrefs
  obtain ⟨n₁, _, _, _, hn, rfl⟩ := before
  obtain ⟨_, _, _, _, -, rfl⟩ := after
  have hfree : ∀ a ∈ db₂.attachments, a.messageId ≠ some n₁ := by
    rw [created.attachments]
    intro a ha hm
    exact absurd (hf.bound a ha n₁ hm) hn.not_gt
  refine ⟨row n₁, by rw [hid]; exact created.free, fun k => ?_, ?_⟩
  · obtain ⟨table, rfl⟩ := claimAttachmentsForMessage_attachments claim
    exact (created.get? k).trans (by rw [hid])
  · rw [hid]
    exact (claimAttachmentsForMessage_claimed hfree claim).of_eq created.attachments rfl

theorem openConversation_claimed {ctx : SendContext Digest} {queued : Bool}
    {value : CreateConversationV2Input} (hrequest : ctx.request = .opening queued value)
    (hf : db.Filed) {id : Uuid} (h : openConversation ctx value db = .ok (id, db')) :
    SendClaimed ctx.config ctx.request db db' := by
  simp only [openConversation, bind_eq_ok, lockAllowedEmailIdentities, get_eq_ok, pure_eq_ok,
    ensure_eq_ok, freshId_eq_ok, orThrow_eq_ok] at h
  obtain ⟨_, _, ⟨_, _, ⟨rfl, rfl⟩, rfl, rfl⟩, _, _, ⟨-, rfl⟩, _, _, ⟨rfl, rfl⟩, _, _,
      ⟨rfl, rfl⟩, replyTo, _,
    ⟨-, rfl⟩, _, _, hconversation, id, db₂, hcreate, _, db₃, hclaim, _, db₄, hcreated, _, db₅,
      hintended, rfl,
    rfl⟩ := h
  obtain ⟨table, -, rfl⟩ := createConversation_eq_ok hconversation
  obtain ⟨rfl, hc⟩ := createOutbound_eq_ok (fun _ => rfl) (fun _ => rfl) hcreate
  exact sendClaimed_of (by rw [hrequest]; rfl) (fun _ => rfl) hf
    ⟨_, table, _, _, Nat.le_add_right _ 2, rfl⟩ hc hclaim
    ((logged_appendConversationEvent _ _ hcreated).trans
      (logged_appendConversationEvent _ _ hintended))

theorem reopenConversation_claimed {ctx : SendContext Digest} {queued : Bool}
    {value : CreateConversationV2Input} (hrequest : ctx.request = .opening queued value)
    (hf : db.Filed) {conversation : EmailConversation} {id : Uuid}
    (h : reopenConversation ctx value conversation db = .ok (some id, db')) :
    SendClaimed ctx.config ctx.request db db' := by
  simp only [reopenConversation, bind_eq_ok, lockAllowedEmailIdentities, get_eq_ok, pure_eq_ok,
    ensure_eq_ok, findConversationOrThrow, orThrow_eq_ok] at h
  obtain ⟨current, _, ⟨_, _, ⟨rfl, rfl⟩, -, rfl⟩, _, _, ⟨_, _, ⟨rfl, rfl⟩, rfl, rfl⟩, _, _,
      ⟨-, rfl⟩, _, _,
    ⟨-, rfl⟩, _, _, ⟨rfl, rfl⟩, h⟩ := h
  split at h
  · cases (pure_eq_ok.mp h).1
  simp only [bind_eq_ok, orThrow_eq_ok, pure_eq_ok] at h
  obtain ⟨_, db₁, hupdate, replyTo, _, ⟨-, rfl⟩, id, db₂, hcreate, _, db₃, hclaim, _,
      db₄, hevents, -,
    rfl⟩ := h
  obtain ⟨rfl, hc⟩ := createOutbound_eq_ok (fun _ => rfl) (fun _ => rfl) hcreate
  exact sendClaimed_of (by rw [hrequest]; rfl) (fun _ => rfl) hf
    (logged_updateConversation hupdate) hc hclaim
    (logged_appendIntentEvents _ _ _ _ _ hevents)

theorem createReply_claimed {ctx : SendContext Digest} {queued : Bool} {conversationId : Uuid}
    {value : MessageV2Input} (hrequest : ctx.request = .reply queued conversationId value)
    (hf : db.Filed) {parent : ReplyParent} {id : Uuid}
    (h : createReply ctx conversationId value parent db = .ok (id, db')) :
    SendClaimed ctx.config ctx.request db db' := by
  simp only [createReply, bind_eq_ok, lockAllowedEmailIdentities, get_eq_ok, pure_eq_ok,
    ensure_eq_ok, findConversationOrThrow, orThrow_eq_ok] at h
  obtain ⟨current, _, ⟨_, _, ⟨rfl, rfl⟩, -, rfl⟩, _, _, ⟨_, _, ⟨rfl, rfl⟩, rfl, rfl⟩, _, _,
      ⟨-, rfl⟩, _, _,
    ⟨-, rfl⟩, replyTo, _, ⟨-, rfl⟩, id, db₁, hcreate, _, db₂, hclaim, _, db₃, hupdate, _, db₄,
      hstate, _, db₅,
    hevents, rfl, rfl⟩ := h
  obtain ⟨rfl, hc⟩ := createOutbound_eq_ok (fun _ => rfl) (fun _ => rfl) hcreate
  exact sendClaimed_of (by rw [hrequest]; rfl) (fun _ => rfl) hf (Std.Refl.refl _) hc hclaim
    ((logged_updateConversation hupdate).trans
    ((logged_applyAutomaticState _ _ _ hstate).trans (logged_appendIntentEvents _ _ _ _ _ hevents)))

theorem createDirect_claimed {ctx : SendContext Digest} {queued : Bool} {value : DirectEmailV2Input}
    (hrequest : ctx.request = .direct queued value) (hf : db.Filed) {id : Uuid}
    (h : createDirect ctx value db = .ok (id, db')) :
    SendClaimed ctx.config ctx.request db db' := by
  simp only [createDirect, bind_eq_ok, lockAllowedEmailIdentity, get_eq_ok, pure_eq_ok,
    ensure_eq_ok] at h
  obtain ⟨_, _, ⟨_, _, ⟨rfl, rfl⟩, rfl, rfl⟩, _, _, ⟨-, rfl⟩, id, db₁, hcreate, _, db₂, hclaim,
    rfl, rfl⟩ := h
  obtain ⟨rfl, hc⟩ := createOutbound_eq_ok (fun _ => rfl) (fun _ => rfl) hcreate
  exact sendClaimed_of (by rw [hrequest]; rfl) (fun _ => rfl) hf (Std.Refl.refl _) hc hclaim
    (Std.Refl.refl _)

theorem storeMessage_claimed {ctx : SendContext Digest} {parent : Option ReplyParent}
    (hf : db.Filed) {id : Uuid} (h : SendHandler.storeMessage ctx parent db = .ok (id, db')) :
    SendClaimed ctx.config ctx.request db db' := by
  unfold SendHandler.storeMessage at h
  cases hrequest : ctx.request with
  | opening queued value =>
      rw [hrequest] at h
      exact hrequest ▸ openConversation_claimed hrequest hf h
  | reply queued conversationId value =>
      rw [hrequest] at h
      cases parent with
      | none => exact (throw_eq_ok.mp h).elim
      | some p => exact hrequest ▸ createReply_claimed hrequest hf h
  | direct queued value =>
      rw [hrequest] at h
      exact hrequest ▸ createDirect_claimed hrequest hf h

/-! ### The system -/

/-- Attachments keep their messages. -/
structure Unclaimed (db db' : Database Digest) : Prop where
  nextId_le : db.nextId ≤ db'.nextId
  kept : ∀ a' ∈ db'.attachments, a'.id < db.nextId →
    ∃ a ∈ db.attachments, a.id = a'.id ∧ a'.messageId = a.messageId

instance : Std.Refl (@Unclaimed Digest) where
  refl _ := ⟨le_rfl, fun a ha _ => ⟨a, ha, rfl, rfl⟩⟩

instance : IsTrans (Database Digest) Unclaimed where
  trans a b c hab hbc := by
    refine ⟨hab.nextId_le.trans hbc.nextId_le, fun x'' hx'' hlt => ?_⟩
    obtain ⟨x', hx', hid', heq'⟩ := hbc.kept x'' hx'' (hlt.trans_le hab.nextId_le)
    obtain ⟨x, hx, hid, heq⟩ := hab.kept x' hx' (hid' ▸ hlt)
    exact ⟨x, hx, hid.trans hid', heq'.trans heq⟩

theorem Statement.unclaimed (h : Statement G db db') (hG : ∀ m, ¬G.bind m) : Unclaimed db db' := by
  refine ⟨h.nextId_le, fun a' ha' hlt => ?_⟩
  rcases h.attachment_origin ha' with ⟨a, ha, hrewritten⟩ | ⟨hid, -, -⟩
  · refine ⟨a, ha, hrewritten.id_eq.symm, ?_⟩
    cases hrewritten with
    | bind messageId granted drawn unbound source stored => exact absurd granted (hG messageId)
    | advance _ _ working frame => rw [frame]
    | _ => rfl
  · exact absurd hid hlt.ne

/-- Where uploads are not bound, attachments keep their messages. -/
theorem Performs.unclaimed (h : Performs G db db') (hG : ∀ m, ¬G.bind m) : Unclaimed db db' :=
  (h.relates (I := fun _ => True) trivial fun _ _ _ hs => ⟨trivial, hs.unclaimed hG⟩).2

/-- The expiry deletes no attachment of a message. -/
theorem expireUnreferencedUploads_kept (now cutoff : Time) {u : Unit}
    (h : expireUnreferencedUploads now cutoff db = .ok (u, db')) {a : EmailAttachment}
    (ha : a ∈ db.attachments) (hbound : a.messageId.isSome) : a ∈ db'.attachments := by
  simp only [expireUnreferencedUploads, modify_eq_ok] at h
  subst h
  obtain ⟨n, tombstones, -, heq, -⟩ := deleteAttachments_eq now
    (fun a => a.source == .upload && a.messageId.isNone && a.createdAt < cutoff) db
  rw [heq]
  refine Table.mem_delete.mpr ⟨ha, ?_⟩
  simp [Option.isNone_eq_false_iff.mpr hbound]

variable [DecidableEq Digest] {s : System Digest}

/-- What holds of the uploads of a reachable system. -/
structure ClaimsHold (rt : Runtime Digest) (s : System Digest) : Prop where
  /-- An attachment that belongs to a message belongs to no other later. -/
  once : ∀ t, Run (step rt) Always s t → ∀ a ∈ s.db.attachments, ∀ a' ∈ t.db.attachments,
    a'.id = a.id → ∀ m, a.messageId = some m → a'.messageId = some m
  /-- A send transaction changes nothing, or it stores its message and binds its uploads. -/
  send : ∀ pid p request c t, s.Runs pid p → p.transacting = some request →
    step rt s (.run pid c) = some t → t.db = s.db ∨ SendClaimed s.config request s.db t.db
  /-- Nothing else stores a message to be sent. -/
  stored : ∀ a t, step rt s a = some t →
    (∀ pid c, a = .run pid c → ∀ p, s.Runs pid p → p.transacting = none) →
    ∀ m ∈ t.db.messages, m.direction = .outbound → (s.db.messages.get? m.id).isSome
  /-- Nothing else binds an upload. -/
  other : ∀ a t, step rt s a = some t →
    (∀ pid c, a = .run pid c → ∀ p, s.Runs pid p → p.transacting = none) →
    ∀ u ∈ s.db.attachments, ∀ u' ∈ t.db.attachments, u'.id = u.id → u'.messageId = u.messageId
  expiry : ∀ pid c t, step rt s (.start pid .reaper c) = some t →
    ∀ a ∈ s.db.attachments, a.messageId.isSome → a ∈ t.db.attachments

end ResendConversation
