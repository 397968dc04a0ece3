import ResendConversation.Proper

/-! # Reply links

The parent links of the messages.  A message and its parent are always in one conversation
(`Reachable.parent_conversation`).  The links form a forest in every run whose late parents
adopt no message above them (`Run.reply_forest`): an email that answers itself, or one that
answers a reply to itself, closes a cycle. -/

namespace ResendConversation

open Foundation Tx

variable {Digest : Type} {lower : JsString → JsString} {rt : Runtime Digest} {s s' : System Digest}
  {a : Action Digest}

/-- The parent map of the messages. -/
def Database.parents (db : Database Digest) (id : Uuid) : Option Uuid :=
  (db.messages.get? id).bind EmailMessage.parentMessageId

theorem Database.threads_parents (db : Database Digest) : db.threads.parents = db.parents := by
  funext id
  unfold Threads.parents Database.parents Database.threads
  cases hm : db.messages.get? id with
  | none => simp [hm]
  | some m => simp [hm, EmailMessage.threadView]

/-! ### Conversations of parents -/

/-- A message with a parent is in the conversation of its parent. -/
theorem Reachable.parent_conversation [DecidableEq Digest] (h : Reachable rt s) :
    ∀ m ∈ s.db.messages, ∀ p, m.parentMessageId = some p → ∃ parent ∈ s.db.messages, parent.id = p ∧
      ∃ c, m.conversationId = some c ∧ parent.conversationId = some c := by
  intro m hm p hp
  obtain ⟨w, hw, hsome, hsame⟩ := h.proper.parent m.id m.threadView p
    (EmailMessage.threadView_of_get? (Table.mem_iff_get?.mp hm)) hp
  obtain ⟨parent, hparent, rfl⟩ := Option.map_eq_some_iff.mp hw
  obtain ⟨c, hc⟩ := Option.isSome_iff_exists.mp hsome
  exact ⟨parent, Table.mem_of_get? hparent, Table.key_of_get? hparent, c, hc, hsame.trans hc⟩

namespace Reference

/-- The handling of a received email, up to its projection. -/
def receive (pid : ℕ) (svixId emailId : JsString) (email : ResendEmail) :
    List (Action SendRequest) :=
  [.start pid (.receive svixId
      { emailId, «from» := email.from, «to» := email.to, createdAt := 0 }) {},
    .run pid {}, .run pid {}, .run pid { received := some email }, .run pid {}, .run pid {}]

/-- An email of a participant, in reply to the given header value. -/
def mail (messageId : JsString) (inReplyTo : Option JsString) : ResendEmail where
  messageId := messageId
  «from» := js "p@q.co"
  «to» := [js "r@s.co"]
  subject := js "s"
  createdAt := some 0
  headers := inReplyTo.map fun id => [(js "in-reply-to", id)]

/-- An email and a reply to it. -/
def exchange : List (Action SendRequest) :=
  receive 0 (js "1") (js "1") (mail (js "<a>") none) ++
    receive 1 (js "2") (js "2") (mail (js "<b>") (some (js "<a>")))

end Reference

/-- A reply is stored with its parent. -/
theorem parent_conversation_reference : ∃ s m p, Reachable .reference s ∧ m ∈ s.db.messages ∧
    m.parentMessageId = some p ∧ ∃ parent ∈ s.db.messages, parent.id = p ∧
      ∃ c, m.conversationId = some c ∧ parent.conversationId = some c := by
  obtain ⟨s, hs, hm⟩ : ∃ s, Run (step .reference) Always .reference s ∧
      s.db.parents 5 = some 3 := Run.exists_of_exec Reference.exchange (by decide +kernel)
  obtain ⟨m, hm, hp⟩ := Option.bind_eq_some_iff.mp hm
  have hmem := Table.mem_of_get? hm
  exact ⟨s, m, 3, .of_run hs, hmem, hp, (Reachable.of_run hs).parent_conversation m hmem 3 hp⟩

/-! ### Events -/

namespace Threads

variable {t : Threads}

/-- The parents of a stored message are stored. -/
theorem Proper.ancestor_stored (h : t.Proper lower) {a b : Uuid}
    (hab : Forest.Ancestor t.parents a b) (hb : (t.messages b).isSome) : (t.messages a).isSome := by
  induction hab with
  | refl => exact hb
  | @tail c d _ hcd ih =>
      obtain ⟨v, hv, hp⟩ := Option.bind_eq_some_iff.mp hcd
      obtain ⟨w, hw, -⟩ := h.parent d v c hv hp
      exact ih (by rw [hw]; rfl)

theorem parents_of_messages {t' : Threads}
    (h : ∀ k, (t'.messages k).bind ThreadView.parentMessageId =
    (t.messages k).bind ThreadView.parentMessageId) : t'.parents = t.parents := funext h

/-- A merge leaves the parents alone. -/
theorem parents_absorb (t : Threads) (c : Uuid) (sources : List Uuid) :
    (t.absorb c sources).parents = t.parents := by
  refine parents_of_messages fun k => ?_
  rw [Threads.absorb_messages]
  cases t.messages k with
  | none => rfl
  | some v => exact ThreadView.move_parentMessageId c sources v

theorem parents_stored (t : Threads) (id : Uuid) (v : ThreadView) :
    (t.apply (.stored id v)).parents = Function.update t.parents id v.parentMessageId := by
  funext k
  by_cases hk : k = id <;> simp [parents, apply, hk]

theorem parents_adopted {p : Uuid} {children : List Uuid}
    (h : ∀ k ∈ children, (t.messages k).isSome) :
    (t.apply (.adopted p children)).parents = Forest.adopt t.parents (· ∈ children) p := by
  funext k
  simp only [parents, apply, Forest.adopt]
  by_cases hk : k ∈ children
  · obtain ⟨v, hv⟩ := Option.isSome_iff_exists.mp (h k hk)
    simp [hk, hv]
  · cases t.messages k <;> simp [hk]

/-- A new message is above nothing. -/
theorem acyclic_stored (h : t.Proper lower) (hf : Forest.Acyclic t.parents) {id : Uuid}
    {v : ThreadView} (henabled : t.Enabled lower (.stored id v)) :
    Forest.Acyclic (t.apply (.stored id v)).parents := by
  obtain ⟨-, hfresh, -, hplace⟩ := henabled
  rw [parents_stored]
  cases hp : v.parentMessageId with
  | none =>
      refine hf.mono fun a b hb => ?_
      by_cases hid : b = id
      · simp [hid] at hb
      · simpa [hid] using hb
  | some p =>
      have heq : Function.update t.parents id (some p) = Forest.adopt t.parents (· = id) p := by
        funext k
        by_cases hk : k = id <;> simp [Forest.adopt, hk]
      rw [heq]
      refine hf.adopt fun c hc hcp => ?_
      subst hc
      have hstored : (t.messages p).isSome := by
        cases hconv : v.conversationId with
        | none =>
            rw [hconv] at hplace
            rw [hplace.parent] at hp
            cases hp
        | some d =>
            rw [hconv] at hplace
            obtain ⟨row, hjoins⟩ := hplace
            obtain ⟨w, hw, -⟩ := hjoins.parent p hp
            rw [hw]
            rfl
      have hsome := h.ancestor_stored hcp hstored
      rw [hfresh] at hsome
      cases hsome

/-- Every event but an adoption keeps the links a forest. -/
theorem acyclic_apply (h : t.Proper lower) (hf : Forest.Acyclic t.parents) {e : ThreadEvent}
    (henabled : t.Enabled lower e) (hadopt : ∀ p children, e ≠ .adopted p children) :
    Forest.Acyclic (t.apply e).parents := by
  cases e with
  | stored id v => exact acyclic_stored h hf henabled
  | adopted p children => exact absurd rfl (hadopt p children)
  | identified id mid =>
      have heq : (t.apply (.identified id mid)).parents = t.parents := by
        refine parents_of_messages fun k => ?_
        simp only [apply, onMessage]
        split
        · cases t.messages k <;> rfl
        · rfl
      rw [heq]
      exact hf
  | merged target sources =>
      have heq : (t.apply (.merged target sources)).parents = t.parents := by
        refine parents_of_messages fun k => ?_
        simp only [apply]
        cases t.messages k with
        | none => rfl
        | some v => exact ThreadView.move_parentMessageId target sources v
      rw [heq]
      exact hf
  | deleted c =>
      refine hf.mono fun a b hb => ?_
      obtain ⟨v', hv', hp⟩ := Option.bind_eq_some_iff.mp hb
      simp only [apply] at hv'
      split at hv'
      · cases hv'
      · obtain ⟨v, hv, rfl⟩ := Option.map_eq_some_iff.mp hv'
        exact Option.bind_eq_some_iff.mpr ⟨v, hv, (Option.filter_eq_some_iff.mp hp).1⟩
  | drawn n => exact hf
  | begun c row => exact hf
  | promoted c base => exact hf
  | reopened c participant base => exact hf
  | assigned c topic => exact hf
  | turned c state => exact hf
  | overridden c state => exact hf

/-- So do the events that explain a step without an adoption. -/
theorem acyclic_of_explains {P : ThreadEvent → Prop} {t' : Threads}
    (h : (threading lower).Explains P t t') (hP : ∀ p children, ¬P (.adopted p children))
    (ht : t.Proper lower) (hf : Forest.Acyclic t.parents) : Forest.Acyclic t'.parents := by
  refine (h.invariant (I := fun t => t.Proper lower ∧ Forest.Acyclic t.parents) ⟨ht, hf⟩
    fun u e he hI henabled => ⟨hI.1.apply henabled, acyclic_apply hI.1 hI.2 henabled ?_⟩).2
  rintro p children rfl
  exact hP p children he

/-- An adoption keeps the forest exactly if no child is above its new parent. -/
theorem acyclic_adopted_iff (hf : Forest.Acyclic t.parents) {p : Uuid} {children : List Uuid}
    (henabled : t.Enabled lower (.adopted p children)) :
    Forest.Acyclic (t.apply (.adopted p children)).parents ↔
      ∀ k ∈ children, ¬Forest.Ancestor t.parents k p := by
  obtain ⟨w, c, mid, -, -, -, hchildren⟩ := henabled
  rw [parents_adopted fun k hk => by
    obtain ⟨v, hv, -⟩ := hchildren k hk
    rw [hv]
    rfl]
  refine Forest.acyclic_adopt_iff hf fun k hk => ?_
  obtain ⟨v, hv, hwaits⟩ := hchildren k hk
  simp [parents, hv, hwaits.parent]

end Threads

/-! ### Late parents -/

/-- The links of an email that is going to be stored: it does not answer itself, and no stored
message that waits for it is above the message that it answers. -/
structure AnswersForward (rt : Runtime Digest) (db : Database Digest) (inbound : InboundEmail) :
    Prop where
  self : inbound.effectiveParentInternetMessageId ≠ some inbound.internetMessageId
  above : ∀ q ∈ db.messages, ∀ k ∈ db.messages,
    (∃ c ∈ db.conversations, q.conversationId = some c.id ∧
      rt.toLowerCase c.participantAddress = inbound.participantAddress) →
    (q.internetMessageId.isSome ∧ q.internetMessageId = inbound.effectiveParentInternetMessageId) →
    k.parentMessageId = none → k.inReplyToInternetMessageId = some inbound.internetMessageId →
    ¬Forest.Ancestor db.parents k.id q.id

/-- No message adopts one above it: neither an email that is projected for the first time, nor
an outbound message that learns its Message-ID. -/
structure LinksForward (rt : Runtime Digest) (s : System Digest) (a : Action Digest) : Prop where
  projection : ∀ pid c h email, a = .run pid c → s.Runs pid (.receive h) →
    h.phase = .project email → (∃ m ∈ s.db.messages, m.kind = .conversation ∧
      carriesIdentity h.event (parseInboundEmail rt h.event email) m = true) ∨
    AnswersForward rt s.db (parseInboundEmail rt h.event email)
  recording : ∀ pid c p id mid createdAt, a = .run pid c → s.Runs pid p → p.records = some id →
    c.retrieved = some (mid, createdAt) → ∀ k ∈ s.db.messages, k.parentMessageId = none →
      k.inReplyToInternetMessageId = some mid → ¬Forest.Ancestor s.db.parents k.id id

theorem ThreadView.move_inReplyTo (c : Uuid) (sources : List Uuid) (v : ThreadView) :
    (v.move c sources).inReplyToInternetMessageId = v.inReplyToInternetMessageId := by
  unfold move
  split <;> rfl

/-- The recording of a Message-ID keeps the forest if no waiting reply is above the message. -/
theorem Recorded.acyclic {t t' : Threads} {id c : Uuid} {mid : JsString}
    {sources children : List Uuid} (h : Recorded lower t t' id mid c sources children)
    (hf : Forest.Acyclic t.parents)
    (habove : ∀ k v, t.messages k = some v → v.parentMessageId = none →
      v.inReplyToInternetMessageId = some mid → ¬Forest.Ancestor t.parents k id) :
    Forest.Acyclic t'.parents := by
  have hparents : ((t.apply (.identified id mid)).absorb c sources).parents = t.parents := by
    rw [Threads.parents_absorb]
    refine Threads.parents_of_messages fun k => ?_
    simp only [Threads.apply, Threads.onMessage]
    split
    · cases t.messages k <;> rfl
    · rfl
  have hadopted :=
    (Threads.acyclic_adopted_iff (hparents ▸ hf) h.enabled_adopted).mpr fun k hk => by
    obtain ⟨v, hv, hp, hr, -⟩ := h.waiting k hk
    rw [hparents]
    exact habove k v hv hp hr
  rw [h.after]
  exact hadopted

theorem Projected.gather_explained {t t' : Threads} {participant mid : JsString} {v : ThreadView}
    {c x : Uuid} {sources children : List Uuid}
    (h : Projected lower t t' participant mid v c x sources children) :
    (threading lower).Explains ThreadEvent.IsMail t (t.gather c sources x) := by
  obtain ⟨row, hrow, hparticipant⟩ := h.found
  have habsorb : (threading lower).Explains ThreadEvent.IsMail t (t.absorb c sources) :=
    explains_absorb trivial h.target_notMem ⟨row, hrow, fun s hs => by
      obtain ⟨source, hsource, htopic, hp⟩ := h.absorbable s hs
      exact ⟨source, hsource, htopic, hp.trans hparticipant.symm⟩⟩
  have hn : (t.absorb c sources).nextId = t.nextId := by
    unfold Threads.absorb
    split <;> rfl
  exact habsorb.trans (Threads.explains (e := .drawn x) trivial (hn.trans_le h.nextId_le))

/-- A projection keeps the forest if the email does not answer itself and answers no message
below a reply to it. -/
theorem Projected.acyclic {t t' : Threads} {participant mid : JsString} {v : ThreadView}
    {c x : Uuid} {sources children : List Uuid}
    (h : Projected lower t t' participant mid v c x sources children) (ht : t.Proper lower)
    (hf : Forest.Acyclic t.parents) (hself : v.inReplyToInternetMessageId ≠ some mid)
    (habove : ∀ k w q, t.messages k = some w → w.parentMessageId = none →
      w.inReplyToInternetMessageId = some mid → v.parentMessageId = some q →
        ¬Forest.Ancestor t.parents k q) : Forest.Acyclic t'.parents := by
  have hgathered : (t.gather c sources x).Proper lower :=
    h.gather_explained.invariant ht fun _ _ _ hI he => hI.apply he
  have hparents : (t.gather c sources x).parents = t.parents := Threads.parents_absorb t c sources
  have hstored := Threads.acyclic_stored hgathered (hparents ▸ hf) h.enabled_stored
  have hadopted :=
    (Threads.acyclic_adopted_iff hstored h.enabled_adopted).mpr fun k hk habove' => by
    obtain ⟨w, hw, hwaits⟩ := (h.adopted k).mp hk
    by_cases hkx : k = x
    · subst hkx
      simp only [Threads.apply, Function.update_self, Option.some.injEq] at hw
      subst hw
      exact hself hwaits.inReplyTo
    · simp only [Threads.apply, Function.update_of_ne hkx, Threads.gather,
        Threads.absorb_messages] at hw
      obtain ⟨w₀, hw₀, rfl⟩ := Option.map_eq_some_iff.mp hw
      -- the path from the child to the email goes through the message that the email answers
      rcases Forest.ancestor_iff.mp habove' with heq | ⟨q, hq, hkq⟩
      · exact hkx heq
      · have hnot : ∀ y, Forest.Ancestor ((t.gather c sources x).apply (.stored x v)).parents y q →
            y ≠ x := by
          rintro y hy rfl
          exact hstored q (.head' hq hy)
        have hvq : v.parentMessageId = some q := by
          rw [Threads.parents_stored, Function.update_self] at hq
          exact hq
        refine habove k w₀ q hw₀ ?_ ?_ hvq (hkq.congr fun y hy => ?_)
        · rw [← ThreadView.move_parentMessageId c sources]
          exact hwaits.parent
        · rw [← ThreadView.move_inReplyTo c sources]
          exact hwaits.inReplyTo
        · rw [Threads.parents_stored, Function.update_of_ne (hnot y hy), hparents]
  refine Threads.acyclic_of_explains h.after (fun _ _ => id) ?_ hadopted
  exact (hgathered.apply h.enabled_stored).apply h.enabled_adopted

/-- A step that links forward keeps the forest. -/
theorem Threading.acyclic (h : Threading rt s a s') (hs : s.db.threads.Proper rt.toLowerCase)
    (hf : Forest.Acyclic s.db.parents) (ha : LinksForward rt s a) :
    Forest.Acyclic s'.db.parents := by
  rw [← Database.threads_parents] at hf ⊢
  cases h with
  | plain events => exact Threads.acyclic_of_explains events.woven (fun _ _ => id) hs hf
  | assigned c topic title action events =>
      exact Threads.acyclic_of_explains events.woven (fun _ _ => id) hs hf
  | overridden c state action events =>
      exact Threads.acyclic_of_explains events.woven (fun _ _ => id) hs hf
  | deleted c action events => exact Threads.acyclic_of_explains events.woven (fun _ _ => id) hs hf
  | reopened pid c h conversation participant base action runs phase enabled requested events =>
      exact Threads.acyclic_of_explains events (fun _ _ => id) (hs.apply enabled) hf
  | recorded pid c p id mid createdAt m action runs records retrieved recording =>
      obtain ⟨d, sources, children, hrecorded⟩ := recordOutboundInternetMessageId_threads recording
      refine hrecorded.acyclic hf fun k v hv hp hr => ?_
      obtain ⟨row, hrow, rfl⟩ := Option.map_eq_some_iff.mp hv
      rw [Database.threads_parents, ← Table.key_of_get? hrow]
      exact ha.recording pid c p id mid createdAt action runs records retrieved row
        (Table.mem_of_get? hrow) hp hr
  | projected pid c h email m action runs phase commits projection =>
      rcases projectInboundEmail_threads projection with
        ⟨heq, -⟩ | ⟨hnew, d, t₀, children, htarget, hm, hprojected⟩
      · rw [heq]
        exact hf
      · have hforward : AnswersForward rt s.db (parseInboundEmail rt h.event email) := by
          rcases ha.projection pid c h email action runs phase with
            ⟨m', hm', hkind, hcarries⟩ | hforward
          · rw [hnew m' hm' hkind] at hcarries
            cases hcarries
          · exact hforward
        have hbase : t₀.Proper rt.toLowerCase ∧ t₀.messages = s.db.threads.messages := by
          cases htarget with
          | chosen choice => exact ⟨hs, rfl⟩
          | begun choice enabled topic => exact ⟨hs.begun enabled, rfl⟩
        have hparents : t₀.parents = s.db.threads.parents :=
          Threads.parents_of_messages fun k => by rw [hbase.2]
        refine hprojected.acyclic hbase.1 (hparents ▸ hf) ?_ fun k w q hw hp hr hq => ?_
        · rw [hm]
          exact hforward.self
        · rw [hbase.2] at hw
          obtain ⟨row, hrow, rfl⟩ := Option.map_eq_some_iff.mp hw
          rw [hm] at hq
          obtain ⟨parent, hparent, rfl⟩ := Option.map_eq_some_iff.mp
            (show (findRelatedMessages rt s.db c.scan
              (parseInboundEmail rt h.event email)).parent.map
              (fun t => t.message.id) = some q from hq)
          obtain ⟨id, hid, hfind⟩ := Option.bind_eq_some_iff.mp hparent
          obtain ⟨hmem, -, -, hconversation, hget, hparticipant⟩ :=
            mem_eligibleFor.mp (List.mem_of_find?_eq_some hfind)
          have hmid : parent.message.internetMessageId = some id := by
            simpa using List.find?_some hfind
          rw [hparents, Database.threads_parents, ← Table.key_of_get? hrow]
          exact hforward.above parent.message hmem row (Table.mem_of_get? hrow)
            ⟨parent.conversation, Table.mem_of_get? hget, hconversation, hparticipant⟩
            ⟨by rw [hmid]; rfl, hmid.trans hid.symm⟩ hp hr

/-! ### Runs -/

/-- A database links finitely many messages. -/
theorem Database.finite_parents (db : Database Digest) : {id | db.parents id ≠ none}.Finite := by
  refine (List.finite_toSet (db.messages.rows.map EmailMessage.id)).subset fun id hid => ?_
  obtain ⟨p, hp⟩ := Option.ne_none_iff_exists'.mp hid
  obtain ⟨m, hm, -⟩ := Option.bind_eq_some_iff.mp hp
  exact List.mem_map.mpr ⟨m, Table.mem_of_get? hm, Table.key_of_get? hm⟩

/-- In every run whose steps link forward the parent links are acyclic, and following them
ends. -/
theorem Run.reply_forest [DecidableEq Digest] {config : Config} {now : Time}
    (hrun : Run (step rt) (LinksForward rt) (.initial config now) s) :
    Forest.Acyclic s.db.parents ∧ ∀ id, ∃ n, Forest.follow s.db.parents id n = none := by
  have hacyclic : Forest.Acyclic s.db.parents := by
    have hinitial : Forest.Acyclic (System.initial config now : System Digest).db.parents := by
      refine Forest.acyclic_none.mono fun a b hb => ?_
      simp [System.initial, Database.initial, Database.parents, Table.empty, Table.get?] at hb
    refine (hrun.invariant (I := fun s => Threaded s ∧ s.db.threads.Proper rt.toLowerCase ∧
      Forest.Acyclic s.db.parents)
        ⟨threaded_initial config now, proper_initial _ config now, hinitial⟩
      fun s a s' hI ha hs => ?_).2.2
    obtain ⟨hthreading, hthreaded⟩ := hI.1.step hs
    exact ⟨hthreaded, hthreading.proper hI.2.1, hthreading.acyclic hI.2.1 hI.2.2 ha⟩
  exact ⟨hacyclic, hacyclic.follow_ends s.db.finite_parents⟩

namespace Reference

/-- No stored message is a reply, and the email that is projected does not answer itself. -/
def firstReply (s : System SendRequest) (a : Action SendRequest) : Bool :=
  (s.db.messages.rows.all fun m => m.inReplyToInternetMessageId.isNone) &&
    match a with
    | .run pid _ =>
        match s.procs.get? pid with
        | some (_, .receive h) =>
            match h.phase with
            | .project email =>
                let inbound := parseInboundEmail .reference h.event email
                inbound.effectiveParentInternetMessageId != some inbound.internetMessageId
            | _ => true
        | _ => true
    | _ => true

theorem firstReply_forward {s : System SendRequest} {a : Action SendRequest}
    (h : firstReply s a = true) : LinksForward .reference s a := by
  unfold firstReply at h
  rw [Bool.and_eq_true, List.all_eq_true] at h
  obtain ⟨hall, hself⟩ := h
  have hnone : ∀ k ∈ s.db.messages, ∀ mid, k.inReplyToInternetMessageId ≠ some mid := by
    intro k hk mid heq
    have hreply := hall k hk
    rw [heq] at hreply
    cases hreply
  refine ⟨fun pid c h email haction hruns hphase => .inr ⟨?_, ?_⟩, ?_⟩
  · subst haction
    dsimp only at hself
    rw [hruns] at hself
    dsimp only at hself
    rw [hphase] at hself
    simpa using hself
  · exact fun q _ k hk _ _ _ hwaits => absurd hwaits (hnone k hk _)
  · exact fun pid c p id mid createdAt _ _ _ _ k hk _ hwaits => absurd hwaits (hnone k hk _)

/-- Two emails that answer each other. -/
def mutualReplies : List (Action SendRequest) :=
  receive 0 (js "1") (js "1") (mail (js "<a>") (some (js "<b>"))) ++
    receive 1 (js "2") (js "2") (mail (js "<b>") (some (js "<a>")))

end Reference

/-- A reply that is linked to its parent, in a forest. -/
theorem reply_forest_reference : ∃ s, Run (step .reference) (LinksForward .reference) .reference s ∧
    s.db.parents 5 = some 3 ∧ Forest.Acyclic s.db.parents ∧
      ∀ id, ∃ n, Forest.follow s.db.parents id n = none := by
  obtain ⟨s, hs, hlink⟩ : ∃ s, Run (step .reference) (fun s a => Reference.firstReply s a = true)
      .reference s ∧
      s.db.parents 5 = some 3 := Run.exists_of_exec Reference.exchange (by decide +kernel)
  have hrun : Run (step .reference) (LinksForward .reference) (.initial .reference 0) s :=
    hs.mono fun _ _ => Reference.firstReply_forward
  exact ⟨s, hrun, hlink, Run.reply_forest hrun⟩

/-- Of two emails that answer each other each becomes the parent of the other. -/
theorem reply_cycle : ∃ s, Reachable .reference s ∧ ¬Forest.Acyclic s.db.parents := by
  obtain ⟨s, hs, hab, hba⟩ : ∃ s, Run (step .reference) Always .reference s ∧
      s.db.parents 5 = some 3 ∧ s.db.parents 3 = some 5 :=
    Run.exists_of_exec Reference.mutualReplies (by decide +kernel)
  exact ⟨s, .of_run hs, fun hf => hf 3 (.tail (.single hab) hba)⟩

end ResendConversation
