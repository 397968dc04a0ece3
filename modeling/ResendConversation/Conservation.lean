import ResendConversation.Commits
import ResendConversation.ReplyForest

/-! # What merges conserve

A step that deletes no conversation loses no message: the messages of a conversation stay in
it, or go together into the survivor that it is merged into.  Topics, V2 and Reply-To bases
survive, and no merge runs into the check of the database
(`Reachable.merges_conserve`). -/

namespace ResendConversation

open Foundation Tx JsString

variable {Digest : Type} {lower : JsString → JsString} {rt : Runtime Digest} {s s' : System Digest}
  {a : Action Digest}

/-! ### Reply-To bases -/

/-- Every Reply-To base is a valid mailbox. -/
def Threads.Mailboxes (lower : JsString → JsString) (t : Threads) : Prop :=
  ∀ c row b, t.conversations c = some row → row.replyToBaseAddress = some b →
    (parseBaseMailbox lower b).isSome

/-- The base of the survivor comes from one of the rows. -/
theorem ConversationView.base_of_merge {target : ConversationView} {sources : List ConversationView}
    {b : JsString} (h : (target.merge sources).replyToBaseAddress = some b) :
    target.replyToBaseAddress = some b ∨
      ∃ source ∈ sources, source.replyToBaseAddress = some b := by
  unfold merge at h
  dsimp only at h
  cases ht : target.replyToBaseAddress with
  | some base =>
      rw [ht] at h
      exact .inl h
  | none =>
      rw [ht, Option.none_or] at h
      obtain ⟨source, hselected, hb⟩ := Option.bind_eq_some_iff.mp h
      refine .inr ⟨source, ?_, hb⟩
      rcases Option.or_eq_some_iff.mp hselected with hp | ⟨-, hp⟩
      · exact List.mem_of_find?_eq_some hp
      · exact List.mem_of_find?_eq_some hp

theorem Threads.Mailboxes.onConversation {t : Threads} (h : t.Mailboxes lower) {c : Uuid}
    {f : ConversationView → ConversationView} (hf : ∀ row b, t.conversations c = some row →
      (f row).replyToBaseAddress = some b → (parseBaseMailbox lower b).isSome) :
    (t.onConversation c f).Mailboxes lower := by
  intro d row' b hrow' hb
  simp only [Threads.onConversation] at hrow'
  split at hrow'
  next heq =>
    obtain ⟨row, hrow, rfl⟩ := Option.map_eq_some_iff.mp hrow'
    exact hf row b (heq ▸ hrow) hb
  next => exact h d row' b hrow' hb

theorem Threads.Mailboxes.apply {t : Threads} (h : t.Mailboxes lower) {e : ThreadEvent}
    (he : t.Enabled lower e) : (t.apply e).Mailboxes lower := by
  cases e with
  | begun c row =>
      obtain ⟨rfl, -, -, hfounding⟩ := he
      intro d row' b hrow' hb
      simp only [Threads.apply, Function.update_apply] at hrow'
      split at hrow'
      · cases hrow'
        cases hfounding with
        | inbound version topicType externalTopicId base allowlist state =>
            rw [base] at hb
            cases hb
        | opening version topicType externalTopicId base state =>
            obtain ⟨base', hbase, hvalid⟩ := base
            rw [hbase] at hb
            cases hb
            exact hvalid
      · exact h d row' b hrow' hb
  | merged target sources =>
      intro d row' b hrow' hb
      simp only [Threads.apply] at hrow'
      split at hrow'
      · cases hrow'
      · split at hrow'
        · obtain ⟨row, hrow, rfl⟩ := Option.map_eq_some_iff.mp hrow'
          rcases ConversationView.base_of_merge hb with hb | ⟨source, hsource, hb⟩
          · exact h d row b hrow hb
          · obtain ⟨c, -, hc⟩ := Threads.mem_rows.mp hsource
            exact h c source b hc hb
        · exact h d row' b hrow' hb
  | promoted c base =>
      obtain ⟨row, hrow, hfits⟩ := he
      exact h.onConversation fun row' b _ hb => by cases hb; exact hfits.valid
  | reopened c participant base =>
      obtain ⟨⟨row, hrow, hfits⟩, -⟩ := he
      exact h.onConversation fun row' b _ hb => by cases hb; exact hfits.valid
  | assigned c topic => exact h.onConversation fun row b hrow hb => h c row b hrow hb
  | turned c state => exact h.onConversation fun row b hrow hb => h c row b hrow hb
  | overridden c state => exact h.onConversation fun row b hrow hb => h c row b hrow hb
  | deleted c =>
      intro d row' b hrow' hb
      simp only [Threads.apply] at hrow'
      split at hrow'
      · cases hrow'
      · exact h d row' b hrow' hb
  | drawn n => exact h
  | stored id v => exact h
  | identified id mid => exact h
  | adopted p children => exact h

theorem Reachable.mailboxes [DecidableEq Digest] (h : Reachable rt s) :
    s.db.threads.Mailboxes rt.toLowerCase :=
  h.invariant_threads
    (by simp [Threads.Mailboxes, System.initial, Database.initial, Database.threads,
    Table.empty, Table.get?]) fun _ _ _ hI he => hI.apply he

/-- An empty base is no mailbox. -/
theorem LowersAscii.mailbox_ne_nil (hlower : LowersAscii lower) {b : JsString}
    (h : (parseBaseMailbox lower b).isSome) : orNull b = some b := by
  cases b with
  | cons c b => rfl
  | nil =>
      have hnil : lower [] = [] := hlower [] (by simp)
      simp [parseBaseMailbox, trim, trimStart, trimEnd, hnil, lastIndexOf] at h

/-- A request whose base fits keeps the base that there is. -/
theorem Threads.Fits.keeps_base (hlower : LowersAscii lower) {t : Threads} (ht : t.Mailboxes lower)
    {c : Uuid} {row : ConversationView} {base b : JsString} (hfits : Threads.Fits lower row base)
    (hrow : t.conversations c = some row) (hb : row.replyToBaseAddress = some b) : b = base := by
  refine hfits.agrees b ?_
  rw [hb, Option.bind_some, hlower.mailbox_ne_nil (ht c row b hrow hb)]

/-! ### Events -/

/-- What a row keeps of the one it succeeds: a topic keeps it from being merged away. -/
structure Retains (kept : Bool) (row row' : ConversationView) : Prop where
  topic : row.topicType.isSome → kept = true ∧ row'.topicType = row.topicType ∧
    row'.externalTopicId = row.externalTopicId
  version : row.apiVersion = some .v2 → row'.apiVersion = some .v2
  base : ∀ b, row.replyToBaseAddress = some b → row'.replyToBaseAddress.isSome ∧
    (kept = true → row'.replyToBaseAddress = some b)

instance : Succession Retains where
  refl row := ⟨fun _ => ⟨rfl, rfl, rfl⟩, id, fun b hb => ⟨by rw [hb]; rfl, fun _ => hb⟩⟩
  comp := by
    intro x y row row' row'' h h'
    refine ⟨fun ht => ?_, h'.version ∘ h.version, fun b hb => ?_⟩
    · obtain ⟨rfl, htype, hid⟩ := h.topic ht
      obtain ⟨rfl, htype', hid'⟩ := h'.topic (by rw [htype]; exact ht)
      exact ⟨rfl, htype'.trans htype, hid'.trans hid⟩
    · obtain ⟨hsome, hkeep⟩ := h.base b hb
      obtain ⟨b', hb'⟩ := Option.isSome_iff_exists.mp hsome
      obtain ⟨hsome', hkeep'⟩ := h'.base b' hb'
      refine ⟨hsome', fun hboth => ?_⟩
      rw [Bool.and_eq_true] at hboth
      rw [hkeep' hboth.2, ← hb', hkeep hboth.1]

/-- A merge keeps the identity of its target, and V2 and the base of its sources. -/
theorem Threads.respects_merged {t : Threads} (hproper : t.Proper lower) {target : Uuid}
    {sources : List Uuid} (he : t.Enabled lower (.merged target sources)) :
    t.Respects Retains (.merged target sources) := by
  refine ⟨stays_merged fun row _ => ?_, absorbed_merged he fun row _ c hc source hsource => ?_⟩
  · exact ⟨fun _ => ⟨rfl, rfl, rfl⟩, fun hv => ConversationView.merge_version (.inl hv), fun b hb =>
      have hmerged : (row.merge (t.rows sources)).replyToBaseAddress = some b :=
        ConversationView.merge_base hb
      ⟨by rw [hmerged]; rfl, fun _ => hmerged⟩⟩
  · obtain ⟨-, -, row', -, hsources⟩ := he
    obtain ⟨source', hsource', htopic, -⟩ := hsources c hc
    obtain rfl : source' = source := Option.some.inj (hsource'.symm.trans hsource)
    have hmem := Threads.mem_rows.mpr ⟨c, hc, hsource⟩
    refine ⟨fun ht => ?_, fun hv => ?_, fun b hb => ⟨?_, fun hfalse => ?_⟩⟩
    · rw [htopic] at ht
      cases ht
    · -- a V2 conversation without a topic has a base
      exact ConversationView.merge_version
        (.inr ⟨source', hmem, hv, (hproper.based c source' hsource).version hv htopic⟩)
    · exact ConversationView.merge_base_isSome hmem (by rw [hb]; rfl)
    · cases hfalse

theorem Threads.respects_retains (hlower : LowersAscii lower) {t : Threads}
    (hproper : t.Proper lower) (ht : t.Mailboxes lower) {e : ThreadEvent} (he : t.Enabled lower e)
    (hdeleted : ∀ d, e ≠ .deleted d) :
    t.Respects Retains e := by
  have hsame : ∀ row row' : ConversationView, row'.topicType = row.topicType →
      row'.externalTopicId = row.externalTopicId → row'.apiVersion = row.apiVersion →
      row'.replyToBaseAddress = row.replyToBaseAddress → Retains true row row' := by
    intro row row' htype hid hversion hbase
    exact ⟨fun _ => ⟨rfl, htype, hid⟩, fun hv => hversion.trans hv, fun b hb =>
      ⟨by rw [hbase, hb]; rfl, fun _ => hbase.trans hb⟩⟩
  have hrebased : ∀ c row base, t.conversations c = some row → Threads.Fits lower row base →
      ∀ row' : ConversationView, row'.topicType = row.topicType →
      row'.externalTopicId = row.externalTopicId → row'.apiVersion = some .v2 →
      row'.replyToBaseAddress = some base → Retains true row row' := by
    intro c row base hrow hfits row' htype hid hversion hbase
    refine ⟨fun _ => ⟨rfl, htype, hid⟩, fun _ => hversion,
      fun b hb => ⟨by rw [hbase]; rfl, fun _ => ?_⟩⟩
    rw [hbase, hfits.keeps_base hlower ht hrow hb]
  cases e with
  | merged target sources => exact respects_merged hproper he
  | promoted c base =>
      obtain ⟨row, hrow, hfits⟩ := he
      refine .of_stays nofun (stays_onConversation fun row' hrow' => ?_)
      obtain rfl : row = row' := Option.some.inj (hrow.symm.trans hrow')
      exact hrebased c row base hrow hfits _ rfl rfl rfl rfl
  | reopened c participant base =>
      obtain ⟨⟨row, hrow, hfits⟩, -⟩ := he
      refine .of_stays nofun (stays_onConversation fun row' hrow' => ?_)
      obtain rfl : row = row' := Option.some.inj (hrow.symm.trans hrow')
      exact hrebased c row base hrow hfits _ rfl rfl rfl rfl
  | assigned c topic =>
      obtain ⟨row, hrow, hnone, -⟩ := he
      refine .of_stays nofun (stays_onConversation fun row' hrow' => ?_)
      obtain rfl : row = row' := Option.some.inj (hrow.symm.trans hrow')
      refine ⟨fun htopic => ?_, fun _ => rfl, fun b hb => ⟨by rw [hb]; rfl, fun _ => hb⟩⟩
      rw [hnone] at htopic
      cases htopic
  | begun c row => exact .of_stays nofun (stays_begun he)
  | turned c state =>
      exact .of_stays nofun (stays_onConversation fun row _ => hsame row _ rfl rfl rfl rfl)
  | overridden c state =>
      exact .of_stays nofun (stays_onConversation fun row _ => hsame row _ rfl rfl rfl rfl)
  | deleted c => exact absurd rfl (hdeleted c)
  | drawn n => exact .of_stays nofun (stays_of_eq rfl)
  | stored id v => exact .of_stays nofun (stays_of_eq rfl)
  | identified id mid => exact .of_stays nofun (stays_of_eq rfl)
  | adopted p children => exact .of_stays nofun (stays_of_eq rfl)

/-! ### Steps -/

/-- What a step that deletes no conversation keeps.  Every message stays and no old one comes
back; every conversation has an heir, which holds all of its messages and keeps its identity. -/
structure Conserves (db db' : Database Digest) : Prop where
  stored : ∀ m ∈ db.messages, ∃ m' ∈ db'.messages, m'.id = m.id
  drawn : ∀ m' ∈ db'.messages, m'.id < db.nextId → ∃ m ∈ db.messages, m.id = m'.id
  heir : ∀ c ∈ db.conversations, ∃ c' ∈ db'.conversations, Retains (c'.id == c.id) c.view c'.view ∧
    (c'.id ≠ c.id → db'.conversations.get? c.id = none) ∧
    ∀ m ∈ db.messages, m.conversationId = some c.id →
      ∃ m' ∈ db'.messages, m'.id = m.id ∧ m'.conversationId = some c'.id

theorem Threads.Inherits.conserves {db db' : Database Digest} (hs : db.Sound)
    (h : db.threads.Inherits Retains db'.threads) : Conserves db db' where
  stored := by
    intro m hm
    have hview := EmailMessage.threadView_of_get? (Table.mem_iff_get?.mp hm)
    obtain ⟨v', hv'⟩ := Option.isSome_iff_exists.mp (h.stored m.id (by rw [hview]; rfl))
    obtain ⟨m', hm', -⟩ := Option.map_eq_some_iff.mp hv'
    exact ⟨m', Table.mem_of_get? hm', Table.key_of_get? hm'⟩
  drawn := by
    intro m' hm' hlt
    obtain ⟨v, hv, -⟩ := h.later.message m'.id m'.threadView hlt
      (EmailMessage.threadView_of_get? (Table.mem_iff_get?.mp hm'))
    obtain ⟨m, hm, -⟩ := Option.map_eq_some_iff.mp hv
    exact ⟨m, Table.mem_of_get? hm, Table.key_of_get? hm⟩
  heir := by
    intro c hc
    have hget := Table.mem_iff_get?.mp hc
    obtain ⟨c', row', hheir⟩ :=
      h.heir c.id c.view (hs.conversationId_lt c hc) (by simp [Database.threads, hget])
    obtain ⟨conversation, hget', rfl⟩ := Option.map_eq_some_iff.mp hheir.found
    obtain rfl := Table.key_of_get? hget'
    refine ⟨conversation, Table.mem_of_get? hget', hheir.succeeds, fun hne => ?_,
      fun m hm hmc => ?_⟩
    · simpa [Database.threads] using hheir.gone hne
    · obtain ⟨v', hv', hc'⟩ := hheir.messages m.id m.threadView
        (EmailMessage.threadView_of_get? (Table.mem_iff_get?.mp hm)) hmc
      obtain ⟨m', hm', rfl⟩ := Option.map_eq_some_iff.mp hv'
      exact ⟨m', Table.mem_of_get? hm', Table.key_of_get? hm', hc'⟩

/-- A history without a deletion, from proper threads. -/
theorem Threads.inherits_retains (hlower : LowersAscii lower) {t t' : Threads}
    {P : ThreadEvent → Prop} (h : (threading lower).Explains P t t') (hP : ∀ d, ¬P (.deleted d))
    (hdrawn : t.Drawn) (hproper : t.Proper lower) (ht : t.Mailboxes lower) :
    t.Inherits Retains t' := by
  refine inherits_of_explains (I := fun t => t.Proper lower ∧ t.Mailboxes lower) h hdrawn
    ⟨hproper, ht⟩
    fun t e he hI henabled => ?_
  have hdeleted : ∀ d, e ≠ .deleted d := by
    rintro d rfl
    exact hP d he
  exact ⟨⟨hI.1.apply henabled, hI.2.apply henabled⟩, hdeleted,
    respects_retains hlower hI.1 hI.2 henabled hdeleted⟩

theorem Threading.retains (hlower : LowersAscii rt.toLowerCase) (h : Threading rt s a s')
    (hdrawn : s.db.threads.Drawn) (hproper : s.db.threads.Proper rt.toLowerCase)
    (ht : s.db.threads.Mailboxes rt.toLowerCase)
    (hdelete : ∀ id, a ≠ .operator (.deleteConversation id)) :
    s.db.threads.Inherits Retains s'.db.threads := by
  cases h with
  | plain events =>
      exact Threads.inherits_retains hlower events.woven (fun _ h => h) hdrawn hproper ht
  | projected pid c h email m action runs phase commits projection =>
      have hwoven := woven_projectInboundEmail _ _ _ _ _ _ _ projection
      exact Threads.inherits_retains hlower hwoven (fun _ h => h) hdrawn hproper ht
  | recorded pid c p id mid createdAt m action runs records retrieved recording =>
      obtain ⟨_, _, _, hrecorded⟩ := recordOutboundInternetMessageId_threads recording
      exact Threads.inherits_retains hlower hrecorded.explained (fun _ h => h) hdrawn hproper ht
  | reopened pid c h conversation participant base action runs phase enabled requested events =>
      have hreopened := Threads.inherits_apply hdrawn enabled nofun
        (Threads.respects_retains hlower hproper ht enabled nofun)
      exact IsTrans.trans _ _ _ hreopened (Threads.inherits_retains hlower events (fun _ h => h)
        (hdrawn.apply enabled) (hproper.apply enabled) (ht.apply enabled))
  | assigned id topic title action events =>
      exact Threads.inherits_retains hlower events.woven (fun _ h => h) hdrawn hproper ht
  | overridden id state action events =>
      exact Threads.inherits_retains hlower events.woven (fun _ h => h) hdrawn hproper ht
  | deleted id action events => exact absurd action (hdelete id)

/-! ### Merging transactions -/

/-- Minor events leave the messages and the aliases alone. -/
structure Threads.Turned (t t' : Threads) : Prop where
  messages : t'.messages = t.messages
  aliases : t'.aliases = t.aliases

instance : Std.Refl Threads.Turned where
  refl _ := ⟨rfl, rfl⟩

instance : IsTrans Threads Threads.Turned where
  trans _ _ _ h h' := ⟨h'.messages.trans h.messages, h'.aliases.trans h.aliases⟩

theorem Threads.turned_of_minor {t t' : Threads}
    (h : (threading lower).Explains ThreadEvent.IsMinor t t') : t.Turned t' := by
  refine (h.relates (I := fun _ => True) (R := Threads.Turned) trivial fun t e he _ _ =>
    ⟨trivial, ?_⟩).2
  cases e with
  | drawn n => exact ⟨rfl, rfl⟩
  | turned c state => exact ⟨rfl, rfl⟩
  | _ => exact he.elim

/-- A projection stores one message. -/
theorem Projected.stored_or {t t' : Threads} {participant mid : JsString} {v : ThreadView}
    {c x : Uuid} {sources children : List Uuid}
    (h : Projected lower t t' participant mid v c x sources children) {k : Uuid}
    (hk : (t'.messages k).isSome) : k = x ∨ (t.messages k).isSome := by
  rw [(Threads.turned_of_minor h.after).messages] at hk
  by_cases hkx : k = x
  · exact .inl hkx
  · right
    simpa [Threads.apply, Threads.gather, Threads.absorb_messages, hkx] using hk

/-- A recording stores none. -/
theorem Recorded.stored {t t' : Threads} {id c : Uuid} {mid : JsString}
    {sources children : List Uuid} (h : Recorded lower t t' id mid c sources children) {k : Uuid}
    (hk : (t'.messages k).isSome) :
    (t.messages k).isSome := by
  rw [h.after] at hk
  by_cases hid : k = id
  · simpa [Threads.apply, Threads.absorb_messages, Threads.onMessage, hid] using hk
  · simpa [Threads.apply, Threads.absorb_messages, Threads.onMessage, hid] using hk

theorem Database.threads_messages_isSome {db : Database Digest} {k : Uuid} :
    (db.threads.messages k).isSome ↔ ∃ m ∈ db.messages, m.id = k := by
  constructor
  · intro h
    obtain ⟨v, hv⟩ := Option.isSome_iff_exists.mp h
    obtain ⟨m, hm, -⟩ := Option.map_eq_some_iff.mp hv
    exact ⟨m, Table.mem_of_get? hm, Table.key_of_get? hm⟩
  · rintro ⟨m, hm, rfl⟩
    rw [EmailMessage.threadView_of_get? (Table.mem_iff_get?.mp hm)]
    rfl

/-- The transaction conserves messages and identity, brings in at most the message that it
returns, and does not run into a check of the database. -/
structure Conserving (x : Transaction Digest (EmailMessage Digest)) (db : Database Digest) :
    Prop where
  conserves : ∀ m db', x db = .ok (m, db') → Conserves db db'
  stored : ∀ m db', x db = .ok (m, db') → ∀ m' ∈ db'.messages, m'.id = m.id ∨
    ∃ old ∈ db.messages, old.id = m'.id
  checks : x db ≠ .error .checkViolation

theorem conserving_projectInboundEmail (hlower : LowersAscii rt.toLowerCase) {db : Database Digest}
    (hs : db.Sound) (htokened : db.threads.Tokened) (hproper : db.threads.Proper rt.toLowerCase)
    (ht : db.threads.Mailboxes rt.toLowerCase) (config : Config) (scan : Scan (EmailMessage Digest))
    (now : Time) (event : EmailEventData) (email : ResendEmail) (base : JsString) :
    Conserving (projectInboundEmail rt config scan now event email base) db where
  conserves := by
    intro m db' h
    have hwoven := woven_projectInboundEmail _ _ _ _ _ _ _ h
    exact (Threads.inherits_retains hlower hwoven (fun _ => id) hs.drawn hproper ht).conserves hs
  stored := by
    intro m db' h m' hm'
    rcases projectInboundEmail_threads h with
      ⟨rfl, -⟩ | ⟨-, c, t₀, children, htarget, -, hprojected⟩
    · exact .inr ⟨m', hm', rfl⟩
    · have hmessages : t₀.messages = db.threads.messages := by
        cases htarget with
        | chosen choice => rfl
        | begun choice enabled topic => rfl
      refine (hprojected.stored_or (Database.threads_messages_isSome.mpr ⟨m', hm', rfl⟩)).imp id
        fun hold => ?_
      rw [hmessages] at hold
      exact Database.threads_messages_isSome.mp hold
  checks := by
    intro h
    rcases projectInboundEmail_fails hs htokened hproper _ h with ⟨herror, -⟩ | ⟨herror, -⟩
    all_goals cases herror

theorem conserving_recordOutboundInternetMessageId (hlower : LowersAscii rt.toLowerCase)
    {db : Database Digest} (hs : db.Sound) (hproper : db.threads.Proper rt.toLowerCase)
    (ht : db.threads.Mailboxes rt.toLowerCase) (config : Config) (scan : Scan (EmailMessage Digest))
    (now : Time) (id : Uuid) (mid : JsString) (createdAt : Time) :
    Conserving (recordOutboundInternetMessageId rt config scan now id mid createdAt) db where
  conserves := by
    intro m db' h
    obtain ⟨_, _, _, hrecorded⟩ := recordOutboundInternetMessageId_threads h
    exact (Threads.inherits_retains hlower hrecorded.explained (fun _ h => h) hs.drawn hproper
      ht).conserves hs
  stored := by
    intro m db' h m' hm'
    obtain ⟨_, _, _, hrecorded⟩ := recordOutboundInternetMessageId_threads h
    exact .inr (Database.threads_messages_isSome.mp
      (hrecorded.stored (Database.threads_messages_isSome.mpr ⟨m', hm', rfl⟩)))
  checks := by
    intro h
    rcases recordOutboundInternetMessageId_fails hs hproper.based _ h with
      ⟨herror | ⟨_, herror⟩, -⟩ | ⟨herror, -⟩
    all_goals cases herror

/-- In every reachable state the allowlist is required only with a Reply-To base, every step
that deletes no conversation conserves messages and identity, and so do the two transactions
that merge, without running into a check. -/
theorem Reachable.merges_conserve [DecidableEq Digest] (hlower : LowersAscii rt.toLowerCase)
    (h : Reachable rt s) :
    (∀ c ∈ s.db.conversations, c.replyToRequiresAllowlist = true → c.replyToBaseAddress.isSome) ∧
    (∀ a s', step rt s a = some s' → (∀ id, a ≠ .operator (.deleteConversation id)) →
      Conserves s.db s'.db) ∧
    (∀ config scan now event email base,
      Conserving (projectInboundEmail rt config scan now event email base) s.db) ∧
    ∀ config scan now id mid createdAt,
      Conserving (recordOutboundInternetMessageId rt config scan now id mid createdAt) s.db := by
  have hs := h.threaded.sound
  have hproper := h.proper
  have ht := h.mailboxes
  refine ⟨fun c hc hallow => ?_, fun a s' hstep hdelete => ?_,
    fun config scan now event email base => ?_, fun config scan now id mid createdAt => ?_⟩
  · have hrow : s.db.threads.conversations c.id = some c.view := by
      simp [Database.threads, Table.mem_iff_get?.mp hc]
    exact (hproper.based c.id c.view hrow).allowlist hallow
  · obtain ⟨hthreading, -⟩ := h.threaded.step hstep
    exact (hthreading.retains hlower hs.drawn hproper ht hdelete).conserves hs
  · exact conserving_projectInboundEmail hlower hs h.tokened hproper ht config scan now
      event email base
  · exact conserving_recordOutboundInternetMessageId hlower hs hproper ht config scan now id
      mid createdAt

namespace Reference

/-- Two replies to an email, each in a conversation of its own, and the email before its
projection. -/
def lateParent : List (Action SendRequest) :=
  receive 0 (js "1") (js "1") (mail (js "<b>") (some (js "<a>"))) ++
    receive 1 (js "2") (js "2") (mail (js "<c>") (some (js "<a>"))) ++
    (receive 2 (js "3") (js "3") (mail (js "<a>") none)).dropLast

end Reference

/-- The projection of the email merges the conversations of its replies. -/
theorem merges_conserve_reference : ∃ s s', Reachable .reference s ∧
    step .reference s (.run 2 {}) = some s' ∧ (s.db.conversations.get? 5).isSome ∧
      s'.db.conversations.get? 5 = none ∧ Conserves s.db s'.db := by
  obtain ⟨s, s', hs, hstep, hsource, hgone⟩ : ∃ s s', Run (step .reference) Always .reference s ∧
      step .reference s (.run 2 {}) = some s' ∧ (s.db.conversations.get? 5).isSome ∧
        s'.db.conversations.get? 5 = none :=
    Run.exists_of_exec_step Reference.lateParent (.run 2 {}) (by decide +kernel)
  have hconserve := (Reachable.of_run hs).merges_conserve Runtime.reference_lowersAscii
  exact ⟨s, s', .of_run hs, hstep, hsource, hgone, hconserve.2.1 _ _ hstep nofun⟩

end ResendConversation
