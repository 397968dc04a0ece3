import ResendConversation.Commits
import ResendConversation.ReplyForest

/-! # The order of arrival

Emails of one participant that answer each other arrive in any order.  Projecting them links every
email to the one it answers and puts it into one conversation with it, whichever came first: a late
parent adopts the replies that wait for it, after the conversations of its relatives are merged.
`Threads.Corresponds` says what holds after every prefix.  Once all have arrived, the links and the
conversations are those of the correspondence (`correspondence_threads`). -/

namespace ResendConversation

open Foundation Tx

variable {Digest : Type} {rt : Runtime Digest}

/-! ### Correspondences -/

/-- A received email and the event that reports it. -/
structure Arrival where
  event : EmailEventData
  email : ResendEmail
deriving DecidableEq

namespace Arrival

def inbound (rt : Runtime Digest) (a : Arrival) : InboundEmail :=
  parseInboundEmail rt a.event a.email

/-- The Message-ID. -/
def mid (rt : Runtime Digest) (a : Arrival) : JsString := (a.inbound rt).internetMessageId

/-- The Message-ID of the email that is answered. -/
def answered (rt : Runtime Digest) (a : Arrival) : Option JsString :=
  (a.inbound rt).effectiveParentInternetMessageId

end Arrival

/-- One arrival answers another. -/
def Answers (rt : Runtime Digest) (arrivals : List Arrival) (a b : Arrival) : Prop :=
  a ∈ arrivals ∧ b ∈ arrivals ∧ a.answered rt = some (b.mid rt)

/-- Following the answered emails from both arrivals leads to a common one. -/
def Kin (rt : Runtime Digest) (arrivals : List Arrival) : Arrival → Arrival → Prop :=
  Relation.Join (Relation.ReflTransGen (Answers rt arrivals))

/-- Emails of one participant that the database can store, with identifiers of their own, none of
them to a routing address, that refer only to relatives. -/
structure Correspondence (rt : Runtime Digest) (arrivals : List Arrival)
    (participant : JsString) : Prop where
  kept : ∀ a ∈ arrivals, KeptEmail rt a.event a.email
  participant : ∀ a ∈ arrivals, (a.inbound rt).participantAddress = participant
  emailId : ∀ a ∈ arrivals, ∀ b ∈ arrivals, a.event.emailId = b.event.emailId → a = b
  mid : ∀ a ∈ arrivals, ∀ b ∈ arrivals, a.mid rt = b.mid rt → a = b
  unrouted : ∀ a ∈ arrivals, (a.inbound rt).routingCandidates = []
  references : ∀ a ∈ arrivals, ∀ b ∈ arrivals, b.mid rt ∈ (a.inbound rt).references →
    Kin rt arrivals a b

/-- The arrivals, the latest first, have been projected one after another into an empty database. -/
inductive Projects (rt : Runtime Digest) : List Arrival → Database Digest → Prop
  | nil : Projects rt [] Database.initial
  | cons {done : List Arrival} {a : Arrival} {db db' : Database Digest} {config : Config}
      {scan : Scan (EmailMessage Digest)} {now : Time} {base : JsString} {m : EmailMessage Digest}
      (earlier : Projects rt done db)
      (projection : projectInboundEmail rt config scan now a.event a.email base db = .ok (m, db')) :
      Projects rt (a :: done) db'

variable {arrivals done : List Arrival} {participant : JsString} {a b : Arrival}

theorem Correspondence.kin (h : Correspondence rt arrivals participant) :
    Equivalence (Kin rt arrivals) := by
  refine Relation.equivalence_join_reflTransGen fun a b c hab hac => ?_
  have hmid : b.mid rt = c.mid rt := Option.some.inj (hab.2.2.symm.trans hac.2.2)
  obtain rfl := h.mid b hab.2.1 c hac.2.1 hmid
  exact ⟨b, .refl, .refl⟩

theorem Answers.kin (h : Answers rt arrivals a b) : Kin rt arrivals a b := ⟨b, .single h, .refl⟩

/-- The email that is answered is among the references. -/
theorem Arrival.answered_mem {id : JsString} (h : a.answered rt = some id) :
    id ∈ (a.inbound rt).references := by
  simp only [Arrival.answered, Arrival.inbound, parseInboundEmail] at h ⊢
  split
  next parent hparent =>
    rw [hparent, Option.some_or, Option.some.injEq] at h
    rw [← h]
    exact List.mem_append_right _ (List.mem_singleton_self _)
  next hnone =>
    rw [hnone, Option.none_or] at h
    exact List.mem_of_getLast? h

/-! ### The messages after a projection -/

/-- The email is stored, the sources move, and the replies that wait are adopted. -/
theorem Projected.messages {lower : JsString → JsString} {t t' : Threads}
    {participant mid : JsString} {v : ThreadView} {c x : Uuid} {sources children : List Uuid}
    (h : Projected lower t t' participant mid v c x sources children) (k : Uuid) :
    t'.messages k =
      (if k = x then some v else (t.messages k).map (ThreadView.move c sources)).map fun w =>
      if k ∈ children then { w with parentMessageId := some x } else w := by
  have hafter : t'.messages k =
      (((t.gather c sources x).apply (.stored x v)).apply (.adopted x children)).messages k := by
    refine h.after.invariant (I := fun u => u.messages k =
      (((t.gather c sources x).apply (.stored x v)).apply (.adopted x children)).messages k) rfl ?_
    intro u e he hI _
    cases e with
    | drawn n => exact hI
    | turned d state => exact hI
    | _ => exact he.elim
  rw [hafter]
  simp only [Threads.apply, Function.update_apply, Threads.gather, Threads.absorb_messages]

/-- The conversations after a projection have the topics and the participants that they had. -/
theorem Projected.conversations {lower : JsString → JsString} {t t' : Threads}
    {participant mid : JsString} {v : ThreadView} {c x : Uuid} {sources children : List Uuid}
    (h : Projected lower t t' participant mid v c x sources children) {d : Uuid}
    {row : ConversationView} (hrow : t'.conversations d = some row) :
    ∃ old, t.conversations d = some old ∧
      row.topicType = old.topicType ∧ row.participantAddress = old.participantAddress := by
  have hgather : ∀ row,
      (((t.gather c sources x).apply (.stored x v)).apply (.adopted x children)).conversations d =
      some row → ∃ old, t.conversations d = some old ∧ row.topicType = old.topicType ∧
        row.participantAddress = old.participantAddress := by
    intro row hrow
    have hrow : (t.absorb c sources).conversations d = some row := hrow
    unfold Threads.absorb at hrow
    split at hrow
    · exact ⟨row, hrow, rfl, rfl⟩
    · replace hrow : (if d ∈ sources then none else if d = c then
          (t.conversations d).map fun row => row.merge (t.rows sources) else t.conversations d) =
            some row := hrow
      split at hrow
      · cases hrow
      · split at hrow
        · obtain ⟨old, hold, rfl⟩ := Option.map_eq_some_iff.mp hrow
          exact ⟨old, hold, rfl, rfl⟩
        · exact ⟨row, hrow, rfl, rfl⟩
  refine h.after.invariant (I := fun u => ∀ row, u.conversations d = some row →
    ∃ old, t.conversations d = some old ∧ row.topicType = old.topicType ∧
      row.participantAddress = old.participantAddress) hgather ?_ row hrow
  intro u e he hI _
  cases e with
  | drawn n => exact hI
  | turned f state =>
      intro row hrow
      replace hrow : (if d = f then (u.conversations d).map fun row =>
        { row with state } else u.conversations d) = some row := hrow
      split at hrow
      · obtain ⟨old, hold, rfl⟩ := Option.map_eq_some_iff.mp hrow
        exact hI old hold
      · exact hI row hrow
  | _ => exact he.elim

/-! ### The invariant -/

/-- What the threads are once the arrivals of `done` are stored. -/
structure Threads.Corresponds (rt : Runtime Digest) (arrivals : List Arrival)
    (participant : JsString) (done : List Arrival) (t : Threads) : Prop where
  origin : ∀ k v, t.messages k = some v → ∃ a ∈ done, v.kind = .conversation ∧
    v.internetMessageId = some (a.mid rt) ∧ v.inReplyToInternetMessageId = a.answered rt ∧
      v.conversationId.isSome
  stored : ∀ a ∈ done, ∃ k v, t.messages k = some v ∧ v.internetMessageId = some (a.mid rt)
  linked : ∀ k v l w i, t.messages k = some v → t.messages l = some w →
    v.inReplyToInternetMessageId = some i → w.internetMessageId = some i →
      v.parentMessageId = some l
  parent : ∀ k v l, t.messages k = some v → v.parentMessageId = some l →
    ∃ w, t.messages l = some w ∧ v.inReplyToInternetMessageId = w.internetMessageId
  kin : ∀ k v l w a b, t.messages k = some v → t.messages l = some w → a ∈ arrivals → b ∈ arrivals →
    v.internetMessageId = some (a.mid rt) → w.internetMessageId = some (b.mid rt) →
      v.conversationId = w.conversationId → Kin rt arrivals a b
  plain : ∀ c row, t.conversations c = some row → row.topicType = none ∧
    rt.toLowerCase row.participantAddress = participant

/-- How an arrival is placed among the stored messages. -/
structure Placement (rt : Runtime Digest) (arrivals : List Arrival) (a : Arrival) (t : Threads)
    (v : ThreadView) (c : Uuid) (sources : List Uuid) : Prop where
  inReplyTo : v.inReplyToInternetMessageId = a.answered rt
  parent : ∀ l, v.parentMessageId = some l ↔
    ∃ w i, t.messages l = some w ∧ a.answered rt = some i ∧ w.internetMessageId = some i
  waiting : ∀ k w, t.messages k = some w → w.parentMessageId = none →
    w.inReplyToInternetMessageId = some (a.mid rt) → (w.move c sources).conversationId = some c
  kin : ∀ k w b, t.messages k = some w → b ∈ arrivals → w.internetMessageId = some (b.mid rt) →
    (w.move c sources).conversationId = some c → Kin rt arrivals a b

theorem ThreadView.move_kept (c : Uuid) (sources : List Uuid) (v : ThreadView) :
    (v.move c sources).kind = v.kind ∧ (v.move c sources).internetMessageId = v.internetMessageId ∧
      (v.move c sources).inReplyToInternetMessageId = v.inReplyToInternetMessageId ∧
      (v.move c sources).conversationId.isSome = v.conversationId.isSome := by
  unfold ThreadView.move
  split
  next h =>
    cases hc : v.conversationId with
    | none => simp [hc] at h
    | some d => exact ⟨rfl, rfl, rfl, rfl⟩
  next => exact ⟨rfl, rfl, rfl, rfl⟩

theorem ThreadView.move_eq_self {c : Uuid} {sources : List Uuid} {v : ThreadView}
    (h : (v.move c sources).conversationId ≠ some c) : v.move c sources = v := by
  unfold ThreadView.move at h ⊢
  split
  next hany =>
    rw [if_pos hany] at h
    exact absurd rfl h
  next => rfl

/-- The messages once the new one is stored, before it adopts the replies that wait for it. -/
def Threads.placed (t : Threads) (x : Uuid) (v : ThreadView) (c : Uuid) (sources : List Uuid)
    (k : Uuid) :
    Option ThreadView :=
  if k = x then some v else (t.messages k).map (ThreadView.move c sources)

theorem Threads.placed_cases {t : Threads} {x c k : Uuid} {v w : ThreadView} {sources : List Uuid}
    (hw : t.placed x v c sources k = some w) :
    (k = x ∧ w = v) ∨ ∃ u, t.messages k = some u ∧ w = u.move c sources := by
  unfold placed at hw
  split at hw
  next hk => exact .inl ⟨hk, (Option.some.inj hw).symm⟩
  next =>
    obtain ⟨u, hu, rfl⟩ := Option.map_eq_some_iff.mp hw
    exact .inr ⟨u, hu, rfl⟩

/-- The message after the adoption. -/
def ThreadView.adopted (x : Uuid) (children : List Uuid) (k : Uuid) (w : ThreadView) : ThreadView :=
  if k ∈ children then { w with parentMessageId := some x } else w

/-- Adoption changes nothing but the parent. -/
theorem ThreadView.adopted_kept (x : Uuid) (children : List Uuid) (k : Uuid) (w : ThreadView) :
    (w.adopted x children k).kind = w.kind ∧
      (w.adopted x children k).internetMessageId = w.internetMessageId ∧
      (w.adopted x children k).inReplyToInternetMessageId = w.inReplyToInternetMessageId ∧
      (w.adopted x children k).conversationId = w.conversationId := by
  unfold adopted
  split <;> exact ⟨rfl, rfl, rfl, rfl⟩

/-- One more arrival is projected, after those of `done`. -/
structure Threads.Arrives (rt : Runtime Digest) (arrivals : List Arrival) (participant : JsString)
    (done : List Arrival) (a : Arrival) (t t₀ t' : Threads) (v : ThreadView) (c x : Uuid)
    (sources children : List Uuid) : Prop where
  among : ∀ b ∈ a :: done, b ∈ arrivals
  new : a ∉ done
  messages : t₀.messages = t.messages
  plain : ∀ d row, t₀.conversations d = some row → row.topicType = none ∧
    rt.toLowerCase row.participantAddress = participant
  projected : Projected rt.toLowerCase t₀ t' participant (a.mid rt) v c x sources children
  place : Placement rt arrivals a t v c sources

namespace Threads.Corresponds

variable {t t₀ t' : Threads} {v : ThreadView} {c x : Uuid} {sources children : List Uuid}
  (h : t.Corresponds rt arrivals participant done) (hcor : Correspondence rt arrivals participant)
  (harrives : Arrives rt arrivals participant done a t t₀ t' v c x sources children)

include h hcor harrives in
/-- No stored message has the Message-ID of the arrival. -/
theorem unused (k : Uuid) (w : ThreadView) (hw : t.messages k = some w) :
    w.internetMessageId ≠ some (a.mid rt) := by
  intro heq
  obtain ⟨b, hb, -, hmid, -⟩ := h.origin k w hw
  have hsame := hcor.mid a (harrives.among a List.mem_cons_self) b
    (harrives.among b (List.mem_cons_of_mem _ hb)) (Option.some.inj (heq.symm.trans hmid))
  exact harrives.new (hsame ▸ hb)

include harrives in
/-- The replies that wait for the arrival are adopted, and no other message. -/
theorem mem_children {k : Uuid} {w : ThreadView} (hw : t.placed x v c sources k = some w) :
    k ∈ children ↔ Waits c (a.mid rt) w := by
  rw [harrives.projected.adopted k]
  have hget : ((t₀.gather c sources x).apply (.stored x v)).messages k = some w := by
    simpa only [Threads.apply, Function.update_apply, Threads.gather, Threads.absorb_messages,
      harrives.messages, placed] using hw
  rw [hget]
  simp

include harrives in
/-- The messages after the arrival. -/
theorem messages_eq (k : Uuid) :
    t'.messages k = (t.placed x v c sources k).map (ThreadView.adopted x children k) := by
  rw [harrives.projected.messages k, harrives.messages]
  rfl

include harrives in
theorem placed_of_stored {k : Uuid} {w : ThreadView} (hw : t'.messages k = some w) :
    ∃ u, t.placed x v c sources k = some u ∧ w = u.adopted x children k := by
  rw [messages_eq harrives] at hw
  obtain ⟨u, hu, rfl⟩ := Option.map_eq_some_iff.mp hw
  exact ⟨u, hu, rfl⟩

include harrives in
theorem stored_of_placed {k : Uuid} {w : ThreadView} (hw : t.placed x v c sources k = some w) :
    ∃ w', t'.messages k = some w' ∧ w'.internetMessageId = w.internetMessageId := by
  rw [messages_eq harrives, hw]
  exact ⟨_, rfl, (w.adopted_kept x children k).2.1⟩

include harrives in
/-- The stored messages are placed as they were, but moved. -/
theorem placed_of_messages {k : Uuid} {u : ThreadView} (hu : t.messages k = some u) :
    t.placed x v c sources k = some (u.move c sources) := by
  have hne : k ≠ x := by
    rintro rfl
    have hfresh := harrives.projected.fresh
    rw [harrives.messages, hu] at hfresh
    cases hfresh
  rw [placed, if_neg hne, hu]
  rfl

include h hcor harrives in
/-- A placed message that answers the arrival waits for it. -/
theorem waits_of_answer {k : Uuid} {p : ThreadView} (hp : t.placed x v c sources k = some p)
    (hi : p.inReplyToInternetMessageId = some (a.mid rt)) : Waits c (a.mid rt) p := by
  have hunused := h.unused hcor harrives
  rcases placed_cases hp with ⟨rfl, rfl⟩ | ⟨u, hu, rfl⟩
  · refine ⟨?_, harrives.projected.conversationId, hi⟩
    refine Option.eq_none_iff_forall_ne_some.mpr fun l hl => ?_
    obtain ⟨w, i, hw, hanswered, hmid⟩ := (harrives.place.parent l).mp hl
    rw [harrives.place.inReplyTo, hanswered] at hi
    exact hunused l w hw (hmid.trans hi)
  · rw [(u.move_kept c sources).2.2.1] at hi
    have hnone : u.parentMessageId = none := by
      refine Option.eq_none_iff_forall_ne_some.mpr fun l hl => ?_
      obtain ⟨w, hw, hmid⟩ := h.parent k u l hu hl
      exact hunused l w hw (hmid.symm.trans hi)
    refine ⟨?_, harrives.place.waiting k u hu hnone hi, ?_⟩
    · rw [ThreadView.move_parentMessageId]
      exact hnone
    · rw [(u.move_kept c sources).2.2.1]
      exact hi

include h hcor harrives in
/-- Answered messages are the parents of their answers. -/
theorem next_linked {k l : Uuid} {v' w' : ThreadView} {i : JsString} (hv' : t'.messages k = some v')
    (hw' : t'.messages l = some w') (hi : v'.inReplyToInternetMessageId = some i)
    (hwi : w'.internetMessageId = some i) : v'.parentMessageId = some l := by
  obtain ⟨p, hp, rfl⟩ := placed_of_stored harrives hv'
  obtain ⟨q, hq, rfl⟩ := placed_of_stored harrives hw'
  rw [(p.adopted_kept x children k).2.2.1] at hi
  rw [(q.adopted_kept x children l).2.1] at hwi
  rcases placed_cases hq with ⟨rfl, rfl⟩ | ⟨w, hw, rfl⟩
  · -- the new email is answered: the reply waits for it
    obtain rfl : i = a.mid rt :=
      Option.some.inj (hwi.symm.trans harrives.projected.internetMessageId)
    have hwaits : Waits c (a.mid rt) p := h.waits_of_answer hcor harrives hp hi
    rw [ThreadView.adopted, if_pos ((mem_children harrives hp).mpr hwaits)]
  · rw [(w.move_kept c sources).2.1] at hwi
    have hlinked : p.parentMessageId = some l := by
      rcases placed_cases hp with ⟨rfl, rfl⟩ | ⟨u, hu, rfl⟩
      · exact (harrives.place.parent l).mpr ⟨w, i, hw, harrives.place.inReplyTo.symm.trans hi, hwi⟩
      · rw [(u.move_kept c sources).2.2.1] at hi
        rw [ThreadView.move_parentMessageId]
        exact h.linked k u l w i hu hw hi hwi
    have hnot : k ∉ children := by
      intro hmem
      have hnone := ((mem_children harrives hp).mp hmem).parent
      rw [hlinked] at hnone
      cases hnone
    rw [ThreadView.adopted, if_neg hnot]
    exact hlinked

include h harrives in
/-- A parent is a message that its child answers. -/
theorem next_parent {k l : Uuid} {v' : ThreadView} (hv' : t'.messages k = some v')
    (hl : v'.parentMessageId = some l) :
    ∃ w, t'.messages l = some w ∧ v'.inReplyToInternetMessageId = w.internetMessageId := by
  obtain ⟨p, hp, rfl⟩ := placed_of_stored harrives hv'
  rw [(p.adopted_kept x children k).2.2.1]
  rw [ThreadView.adopted] at hl
  by_cases hmem : k ∈ children
  · rw [if_pos hmem] at hl
    obtain rfl : x = l := Option.some.inj hl
    obtain ⟨w', hw', hmid⟩ :=
      stored_of_placed harrives (if_pos rfl : t.placed x v c sources x = some v)
    refine ⟨w', hw', ((mem_children harrives hp).mp hmem).inReplyTo.trans ?_⟩
    exact harrives.projected.internetMessageId.symm.trans hmid.symm
  · rw [if_neg hmem] at hl
    have hfound : ∃ w, t.messages l = some w ∧
        p.inReplyToInternetMessageId = w.internetMessageId := by
      rcases placed_cases hp with ⟨rfl, rfl⟩ | ⟨u, hu, rfl⟩
      · obtain ⟨w, i, hw, hanswered, hmid⟩ := (harrives.place.parent l).mp hl
        exact ⟨w, hw, harrives.place.inReplyTo.trans (hanswered.trans hmid.symm)⟩
      · rw [ThreadView.move_parentMessageId] at hl
        rw [(u.move_kept c sources).2.2.1]
        exact h.parent k u l hu hl
    obtain ⟨w, hw, hreply⟩ := hfound
    obtain ⟨w', hw', hmid⟩ := stored_of_placed harrives (placed_of_messages harrives hw)
    exact ⟨w', hw', hreply.trans ((w.move_kept c sources).2.1.symm.trans hmid.symm)⟩

include hcor harrives in
/-- Every message in the conversation of the arrival is kin to it. -/
theorem kin_of_placed {k : Uuid} {w : ThreadView} {b : Arrival}
    (hw : t.placed x v c sources k = some w) (hb : b ∈ arrivals)
    (hmid : w.internetMessageId = some (b.mid rt)) (hc : w.conversationId = some c) :
    Kin rt arrivals a b := by
  rcases placed_cases hw with ⟨-, rfl⟩ | ⟨u, hu, rfl⟩
  · obtain rfl := hcor.mid a (harrives.among a List.mem_cons_self) b hb
      (Option.some.inj (harrives.projected.internetMessageId.symm.trans hmid))
    exact hcor.kin.refl a
  · rw [(u.move_kept c sources).2.1] at hmid
    exact harrives.place.kin k u b hu hb hmid hc

include harrives in
/-- Elsewhere nothing moved. -/
theorem messages_of_placed {k : Uuid} {w : ThreadView} (hw : t.placed x v c sources k = some w)
    (hne : w.conversationId ≠ some c) : t.messages k = some w := by
  rcases placed_cases hw with ⟨-, rfl⟩ | ⟨u, hu, rfl⟩
  · exact absurd harrives.projected.conversationId hne
  · rw [ThreadView.move_eq_self hne]
    exact hu

include h hcor harrives in
/-- Messages of one conversation are kin. -/
theorem next_kin {k l : Uuid} {v' w' : ThreadView} {a₁ a₂ : Arrival} (hv' : t'.messages k = some v')
    (hw' : t'.messages l = some w') (ha₁ : a₁ ∈ arrivals) (ha₂ : a₂ ∈ arrivals)
    (hv₁ : v'.internetMessageId = some (a₁.mid rt)) (hw₂ : w'.internetMessageId = some (a₂.mid rt))
    (hsame : v'.conversationId = w'.conversationId) : Kin rt arrivals a₁ a₂ := by
  obtain ⟨p, hp, rfl⟩ := placed_of_stored harrives hv'
  obtain ⟨q, hq, rfl⟩ := placed_of_stored harrives hw'
  rw [(p.adopted_kept x children k).2.1] at hv₁
  rw [(q.adopted_kept x children l).2.1] at hw₂
  rw [(p.adopted_kept x children k).2.2.2, (q.adopted_kept x children l).2.2.2] at hsame
  have hequiv := hcor.kin
  by_cases hc : p.conversationId = some c
  · exact hequiv.trans (hequiv.symm (kin_of_placed hcor harrives hp ha₁ hv₁ hc))
      (kin_of_placed hcor harrives hq ha₂ hw₂ (hsame ▸ hc))
  · exact h.kin k p l q a₁ a₂ (messages_of_placed harrives hp hc)
      (messages_of_placed harrives hq (hsame ▸ hc)) ha₁ ha₂ hv₁ hw₂ hsame

include h hcor harrives in
/-- One more arrival. -/
theorem next : t'.Corresponds rt arrivals participant (a :: done) := by
  refine
    { origin := fun k w' hw' => ?_
      stored := fun b hb => ?_
      linked := fun k v' l w' i hv' hw' hi hwi => h.next_linked hcor harrives hv' hw' hi hwi
      parent := fun k v' l hv' hl => h.next_parent harrives hv' hl
      kin := fun k v' l w' a₁ a₂ hv' hw' ha₁ ha₂ hv₁ hw₂ hsame =>
        h.next_kin hcor harrives hv' hw' ha₁ ha₂ hv₁ hw₂ hsame
      plain := fun d row hrow => ?_ }
  · obtain ⟨w, hw, rfl⟩ := placed_of_stored harrives hw'
    obtain ⟨hkind, hmid, hreply, hconversation⟩ := w.adopted_kept x children k
    rw [hkind, hmid, hreply, hconversation]
    rcases placed_cases hw with ⟨-, rfl⟩ | ⟨u, hu, rfl⟩
    · exact ⟨a, List.mem_cons_self, harrives.projected.kind, harrives.projected.internetMessageId,
        harrives.place.inReplyTo, by rw [harrives.projected.conversationId]; rfl⟩
    · obtain ⟨b, hb, hkind', hmid', hreply', hsome⟩ := h.origin k u hu
      obtain ⟨h₁, h₂, h₃, h₄⟩ := u.move_kept c sources
      exact ⟨b, List.mem_cons_of_mem _ hb, h₁.trans hkind', h₂.trans hmid', h₃.trans hreply',
        h₄.trans hsome⟩
  · rcases List.mem_cons.mp hb with rfl | hb
    · obtain ⟨w', hw', hmid⟩ :=
        stored_of_placed harrives (if_pos rfl : t.placed x v c sources x = some v)
      exact ⟨x, w', hw', hmid.trans harrives.projected.internetMessageId⟩
    · obtain ⟨k, u, hu, hmid⟩ := h.stored b hb
      obtain ⟨w', hw', hmid'⟩ := stored_of_placed harrives (placed_of_messages harrives hu)
      exact ⟨k, w', hw', hmid'.trans ((u.move_kept c sources).2.1.trans hmid)⟩
  · obtain ⟨old, hold, htopic, hparticipant⟩ := harrives.projected.conversations hrow
    rw [htopic, hparticipant]
    exact harrives.plain d old hold

end Threads.Corresponds

/-! ### The database -/

theorem projectInto_view {config : Config} {now : Time} {event : EmailEventData}
    {email : ResendEmail} {related : RelatedMessages Digest} {conversation : EmailConversation}
    {created : Bool} {db db' : Database Digest} {m : EmailMessage Digest}
    (h : projectInto rt config now event email related conversation created db = .ok (m, db')) :
    db'.view? m.id = some m.sendView := by
  obtain ⟨_, db₁, -, h⟩ := bind_eq_ok.mp h
  obtain ⟨message, db₂, h₂, h⟩ := bind_eq_ok.mp h
  obtain ⟨count, db₃, h₃, h⟩ := bind_eq_ok.mp h
  obtain ⟨_, db₄, h₄, h⟩ := bind_eq_ok.mp h
  obtain ⟨rfl, rfl⟩ := pure_eq_ok.mp h
  obtain ⟨hmessage, hcreated⟩ := createMessage_eq_ok h₂
  have hstored : db₂.messages.get? message.id = some message := by
    rw [hcreated.get?, hmessage, if_pos rfl]
  have hquiet : Passive db₂ db₄ :=
    (quiet_projectInboundAttachments _ _ _ _ _ _ h₃).trans (quiet_finishProjection _ _ _ _ _ _ h₄)
  exact hquiet.view _ _ (Database.view?_of_get? hstored)

/-- The row that a projection returns is the stored one, up to what it adopted meanwhile. -/
theorem projectInboundEmail_view {config : Config} {scan : Scan (EmailMessage Digest)} {now : Time}
    {event : EmailEventData} {email : ResendEmail} {base : JsString} {db db' : Database Digest}
    {m : EmailMessage Digest}
    (h : projectInboundEmail rt config scan now event email base db = .ok (m, db')) :
    db'.view? m.id = some m.sendView := by
  obtain ⟨_, _, hget, h⟩ := bind_eq_ok.mp h
  obtain ⟨rfl, rfl⟩ := get_eq_ok.mp hget
  dsimp only at h
  cases hexisting : (scan.order (db.messages.select fun m => m.kind == .conversation &&
      carriesIdentity event (parseInboundEmail rt event email) m)).head? with
  | some existing =>
      rw [hexisting] at h
      obtain ⟨rfl, rfl⟩ := pure_eq_ok.mp h
      have hmem := (scan.perm _).mem_iff.mp (List.mem_of_mem_head? hexisting)
      rw [Table.mem_select] at hmem
      exact Database.view?_of_get? (Table.mem_iff_get?.mp hmem.1)
  | none =>
      rw [hexisting] at h
      dsimp only at h
      cases hchosen : chooseConversation rt db (parseInboundEmail rt event email)
          (findRelatedMessages rt db scan (parseInboundEmail rt event email)) base with
      | some conversation =>
          rw [hchosen] at h
          exact projectInto_view h
      | none =>
          rw [hchosen] at h
          obtain ⟨conversation, db₁, -, h⟩ := bind_eq_ok.mp h
          exact projectInto_view h

/-- Without a routing tag, the conversation that is chosen is that of a related message. -/
theorem chooseConversation_related {db : Database Digest} {scan : Scan (EmailMessage Digest)}
    {inbound : InboundEmail} {base : JsString} {c : EmailConversation}
    (hunrouted : inbound.routingCandidates = [])
    (h : chooseConversation rt db inbound (findRelatedMessages rt db scan inbound) base = some c) :
    ∃ t ∈ (findRelatedMessages rt db scan inbound).eligible ++
      (findRelatedMessages rt db scan inbound).waitingChildren, t.conversation = c := by
  rcases chooseConversation_found h with hrelated | hrouted
  · exact hrelated
  · unfold routedConversation at hrouted
    dsimp only at hrouted
    split at hrouted
    next d heq =>
      have hmem : d ∈ [d] := List.mem_singleton_self d
      rw [← heq, List.mem_filter, hunrouted] at hmem
      simp at hmem
    next => cases hrouted

/-- What the database is once the arrivals of `done` are stored. -/
structure Database.Corresponds (rt : Runtime Digest) (arrivals : List Arrival)
    (participant : JsString) (done : List Arrival) (db : Database Digest) : Prop where
  sound : db.Sound
  tokened : db.threads.Tokened
  proper : db.threads.Proper rt.toLowerCase
  threads : db.threads.Corresponds rt arrivals participant done
  identified : ∀ m ∈ db.messages, ∃ b ∈ done, m.resendEmailId = some b.event.emailId

namespace Database.Corresponds

variable {db db' : Database Digest} {config : Config} {scan : Scan (EmailMessage Digest)}
  {now : Time} {base : JsString} {m : EmailMessage Digest}

theorem initial (rt : Runtime Digest) (arrivals : List Arrival) (participant : JsString) :
    Database.Corresponds rt arrivals participant [] (Database.initial : Database Digest) where
  sound := sound_initial
  tokened := fun c row h => by cases h
  proper := by
    constructor <;> simp [Database.initial, Database.threads, Table.empty, Table.get?]
  threads := by
    constructor <;> simp [Database.initial, Database.threads, Table.empty, Table.get?]
  identified := fun m hm => by cases hm

/-- A message that a query selects comes with its conversation, which has no topic. -/
theorem eligible (h : db.Corresponds rt arrivals participant done)
    (scan : Scan (EmailMessage Digest)) {p : EmailMessage Digest → Bool} (hm : m ∈ db.messages)
    (hp : p m = true) : ∃ row,
      ⟨m, row⟩ ∈ eligibleFor rt db scan participant p ∧ row.topicType = none ∧
        m.conversationId = some row.id := by
  have hview := EmailMessage.threadView_of_get? (Table.mem_iff_get?.mp hm)
  obtain ⟨b, -, hkind, -, -, hsome⟩ := h.threads.origin m.id _ hview
  obtain ⟨c, hc⟩ := Option.isSome_iff_exists.mp hsome
  obtain ⟨row, hrow⟩ := Option.isSome_iff_exists.mp (h.sound.placed m hm c hc)
  have hplain := h.threads.plain c row.view (by simp [Database.threads, hrow])
  obtain rfl := Table.key_of_get? hrow
  exact ⟨row, mem_eligibleFor.mpr ⟨hm, hp, hkind, hc, hrow, hplain.2⟩, hplain.1, hc⟩

/-- An arrival is not taken for a stored one. -/
theorem carriesIdentity_eq_false (h : db.Corresponds rt arrivals participant done)
    (hcor : Correspondence rt arrivals participant) (hsub : ∀ b ∈ a :: done, b ∈ arrivals)
    (hnew : a ∉ done) (hm : m ∈ db.messages) :
    carriesIdentity a.event (a.inbound rt) m = false := by
  have ha : a ∈ arrivals := hsub a List.mem_cons_self
  rw [carriesIdentity, Bool.or_eq_false_iff, beq_eq_false_iff_ne, beq_eq_false_iff_ne]
  constructor
  · intro heq
    obtain ⟨b, hb, hid⟩ := h.identified m hm
    have hsame := hcor.emailId a ha b (hsub b (List.mem_cons_of_mem _ hb))
      (Option.some.inj (heq.symm.trans hid))
    exact hnew (hsame ▸ hb)
  · intro heq
    have hview := EmailMessage.threadView_of_get? (Table.mem_iff_get?.mp hm)
    obtain ⟨b, hb, -, hid, -⟩ := h.threads.origin m.id _ hview
    have hsame :=
      hcor.mid a ha b (hsub b (List.mem_cons_of_mem _ hb)) (Option.some.inj (heq.symm.trans hid))
    exact hnew (hsame ▸ hb)

/-- Of related messages, the arrival is a relative. -/
theorem kin_of_related (h : db.Corresponds rt arrivals participant done)
    (hcor : Correspondence rt arrivals participant) (hsub : ∀ b ∈ a :: done, b ∈ arrivals)
    {t : ThreadedMessage Digest}
    (ht : t ∈ (findRelatedMessages rt db scan (a.inbound rt)).eligible ++
      (findRelatedMessages rt db scan (a.inbound rt)).waitingChildren) :
    ∃ b ∈ arrivals, t.message.internetMessageId = some (b.mid rt) ∧ Kin rt arrivals a b := by
  have ha : a ∈ arrivals := hsub a List.mem_cons_self
  obtain ⟨hm, -⟩ := related_stored ht
  have hview := EmailMessage.threadView_of_get? (Table.mem_iff_get?.mp hm)
  obtain ⟨b, hb, -, hmid, hreply, -⟩ := h.threads.origin _ _ hview
  have hb' : b ∈ arrivals := hsub b (List.mem_cons_of_mem _ hb)
  refine ⟨b, hb', hmid, ?_⟩
  rcases List.mem_append.mp ht with ht | ht
  · -- it is referred to
    obtain ⟨-, hp, -⟩ := mem_eligibleFor.mp ht
    have hmid : t.message.internetMessageId = some (b.mid rt) := hmid
    simp only [hmid, Bool.and_eq_true, Option.any_some, List.contains_iff_mem,
      List.mem_reverse] at hp
    exact hcor.references a ha b hb' hp.2
  · -- it answers the arrival
    obtain ⟨-, hp, -⟩ := mem_eligibleFor.mp ht
    simp only [Bool.and_eq_true, beq_iff_eq] at hp
    have hanswers : Answers rt arrivals b a := ⟨hb', ha, hreply.symm.trans hp.2⟩
    exact hcor.kin.symm hanswers.kin

theorem placement (h : db.Corresponds rt arrivals participant done)
    (hcor : Correspondence rt arrivals participant) (hsub : ∀ b ∈ a :: done, b ∈ arrivals)
    {c : EmailConversation} {t₀ : Threads}
    (htarget : ProjectionTarget rt db scan (a.inbound rt) base c t₀)
    (hm : m = inboundMessage a.event a.email (a.inbound rt) now m.id c.id
      ((findRelatedMessages rt db scan (a.inbound rt)).parent.map fun t => t.message.id)) :
    Placement rt arrivals a db.threads m.threadView c.id (unassignedConversations c.id
      ((findRelatedMessages rt db scan (a.inbound rt)).eligible ++
        (findRelatedMessages rt db scan (a.inbound rt)).waitingChildren)) := by
  have ha : a ∈ arrivals := hsub a List.mem_cons_self
  have hparticipant : (a.inbound rt).participantAddress = participant := hcor.participant a ha
  have hstored : ∀ k w, db.threads.messages k = some w →
      ∃ n ∈ db.messages, n.id = k ∧ n.threadView = w := by
    intro k w hw
    obtain ⟨n, hn, rfl⟩ := Option.map_eq_some_iff.mp hw
    exact ⟨n, Table.mem_of_get? hn, Table.key_of_get? hn, rfl⟩
  have hfound : ∀ {p : EmailMessage Digest → Bool} {i : JsString} {t : ThreadedMessage Digest},
      (eligibleFor rt db scan (a.inbound rt).participantAddress p).find?
        (fun t => t.message.internetMessageId == some i) = some t →
          t.message.internetMessageId = some i := by
    intro p i t hfind
    have heq := List.find?_some hfind
    exact beq_iff_eq.mp heq
  refine
    { inReplyTo := congrArg EmailMessage.inReplyToInternetMessageId hm
      parent := fun l => ?_
      waiting := fun k w hw hnone hreply => ?_
      kin := fun k w b hw hb hmid hc => ?_ }
  · have hparent : m.threadView.parentMessageId =
        (findRelatedMessages rt db scan (a.inbound rt)).parent.map fun t => t.message.id :=
      congrArg EmailMessage.parentMessageId hm
    rw [hparent]
    constructor
    · intro hl
      obtain ⟨t, ht, rfl⟩ := Option.map_eq_some_iff.mp hl
      obtain ⟨hstored, -⟩ := related_stored (List.mem_append_left _ (mem_eligible_of_parent ht))
      obtain ⟨i, hanswered, hfind⟩ := Option.bind_eq_some_iff.mp ht
      exact ⟨_, i, EmailMessage.threadView_of_get? (Table.mem_iff_get?.mp hstored), hanswered,
        hfound hfind⟩
    · rintro ⟨w, i, hw, hanswered, hmid⟩
      obtain ⟨n, hn, rfl, rfl⟩ := hstored l w hw
      have hmid : n.internetMessageId = some i := hmid
      have hreferred : i ∈ (a.inbound rt).references.reverse :=
        List.mem_reverse.mpr (Arrival.answered_mem hanswered)
      have hkind : n.kind = .conversation := by
        obtain ⟨-, -, hkind, -⟩ := h.threads.origin _ _ hw
        exact hkind
      obtain ⟨row, hmem, -⟩ := h.eligible scan (p := fun m => m.kind == .conversation &&
        m.internetMessageId.any (a.inbound rt).references.reverse.contains) hn
          (by simp [hmid, hkind, hreferred])
      rw [← hparticipant] at hmem
      obtain ⟨t, hfind⟩ := Option.isSome_iff_exists.mp (List.find?_isSome
        (p := fun t : ThreadedMessage Digest => t.message.internetMessageId == some i).mpr
          ⟨_, hmem, beq_iff_eq.mpr hmid⟩)
      have ht : (findRelatedMessages rt db scan (a.inbound rt)).parent = some t :=
        Option.bind_eq_some_iff.mpr ⟨i, hanswered, hfind⟩
      obtain ⟨htm, -⟩ := related_stored (List.mem_append_left _ (mem_eligible_of_parent ht))
      have htmid : t.message.internetMessageId = some i := hfound hfind
      have hsame : t.message = n :=
        h.sound.internetMessageId t.message htm n hn (by rw [htmid]; rfl)
        (htmid.trans hmid.symm)
      rw [ht, Option.map_some, hsame]
  · obtain ⟨n, hn, rfl, rfl⟩ := hstored k w hw
    have hkind : n.kind = .conversation := by
      obtain ⟨-, -, hkind, -⟩ := h.threads.origin _ _ hw
      exact hkind
    have hnone : n.parentMessageId = none := hnone
    have hreply : n.inReplyToInternetMessageId = some (a.inbound rt).internetMessageId := hreply
    obtain ⟨row, hmem, htopic, hrow⟩ := h.eligible scan (p := fun m => m.kind == .conversation &&
      m.parentMessageId.isNone && m.inReplyToInternetMessageId == some
        (a.inbound rt).internetMessageId) hn
        (by simp [hkind, hnone, hreply])
    rw [← hparticipant] at hmem
    have hwaiting :
      ⟨n, row⟩ ∈ (findRelatedMessages rt db scan (a.inbound rt)).waitingChildren := hmem
    have hview : n.threadView.conversationId = some row.id := hrow
    by_cases heq : row.id = c.id
    · rw [ThreadView.move_of_notMem hview (heq ▸ target_notMem_unassigned), hview, heq]
    · have hsource : row.id ∈ unassignedConversations c.id
          ((findRelatedMessages rt db scan (a.inbound rt)).eligible ++
            (findRelatedMessages rt db scan (a.inbound rt)).waitingChildren) :=
        mem_unassignedConversations.mpr ⟨_, List.mem_append_right _ hwaiting, rfl, heq, htopic⟩
      simp [ThreadView.move, hview, hsource]
  · -- the message of a related conversation, and a relative of it
    have hrelative : ∀ t ∈ (findRelatedMessages rt db scan (a.inbound rt)).eligible ++
        (findRelatedMessages rt db scan (a.inbound rt)).waitingChildren,
        w.conversationId = some t.conversation.id → Kin rt arrivals a b := by
      intro t ht hconversation
      obtain ⟨b', hb', hmid', hkin⟩ := h.kin_of_related hcor hsub ht
      obtain ⟨htm, htc, -⟩ := related_stored ht
      have hview := EmailMessage.threadView_of_get? (Table.mem_iff_get?.mp htm)
      have hsame : Kin rt arrivals b' b := h.threads.kin _ _ k w b' b hview hw hb' hb hmid' hmid
        (htc.trans hconversation.symm)
      exact hcor.kin.trans hkin hsame
    obtain ⟨s, hs, hmoved⟩ := ThreadView.conversationId_of_move hc
    split at hmoved
    next hsource =>
      obtain ⟨t, ht, rfl, -⟩ := mem_unassignedConversations.mp hsource
      exact hrelative t ht hs
    next =>
      subst hmoved
      cases htarget with
      | chosen choice =>
          obtain ⟨t, ht, rfl⟩ := chooseConversation_related (hcor.unrouted a ha) choice
          exact hrelative t ht hs
      | begun choice enabled topic =>
          have hplaced := h.proper.placed k w c.id hw hs
          rw [enabled.2.1] at hplaced
          cases hplaced

/-- One more arrival. -/
theorem next (h : db.Corresponds rt arrivals participant done)
    (hcor : Correspondence rt arrivals participant) (hsub : ∀ b ∈ a :: done, b ∈ arrivals)
    (hnew : a ∉ done)
    (hprojects : projectInboundEmail rt config scan now a.event a.email base db = .ok (m, db')) :
    db'.Corresponds rt arrivals participant (a :: done) := by
  have hwoven := woven_projectInboundEmail _ _ _ _ _ _ _ hprojects
  rcases projectInboundEmail_threads hprojects with ⟨-, hm, -, hcarries⟩ |
    ⟨-, c, t₀, children, htarget, hm, hprojected⟩
  · have hnot := h.carriesIdentity_eq_false hcor hsub hnew hm
    exact absurd (hcarries.symm.trans hnot) (by decide)
  · have hmessages : t₀.messages = db.threads.messages := by cases htarget <;> rfl
    have hplain : ∀ d row, t₀.conversations d = some row → row.topicType = none ∧
        rt.toLowerCase row.participantAddress = participant := by
      cases htarget with
      | chosen choice => exact h.threads.plain
      | begun choice enabled topic =>
          intro d row hrow
          by_cases hd : d = c.id
          · obtain ⟨own, hown, hparticipant⟩ := hprojected.found
            subst hd
            obtain rfl : own = row := Option.some.inj (hown.symm.trans hrow)
            have hview : c.view = own := by simpa [Threads.apply] using hrow
            exact ⟨hview ▸ topic,
              hparticipant.trans (hcor.participant a (hsub a List.mem_cons_self))⟩
          · refine h.threads.plain d row ?_
            simpa [Threads.apply, hd] using hrow
    have hprojected' := hprojected
    rw [show (parseInboundEmail rt a.event a.email).participantAddress = participant from
      hcor.participant a (hsub a List.mem_cons_self)] at hprojected'
    exact
      { sound := keeps_projectInboundEmail _ _ _ _ _ _ _ hprojects h.sound
        tokened := hwoven.invariant h.tokened fun _ _ _ hI he => hI.apply he
        proper := hwoven.invariant h.proper fun _ _ _ hI he => hI.apply he
        threads := h.threads.next hcor ⟨hsub, hnew, hmessages, hplain, hprojected',
          h.placement hcor hsub htarget hm⟩
        identified := by
          intro m' hm'
          have hview := EmailMessage.threadView_of_get? (Table.mem_iff_get?.mp hm')
          have hstored : db'.view? m'.id = some m'.sendView :=
            Database.view?_of_get? (Table.mem_iff_get?.mp hm')
          by_cases hid : m'.id = m.id
          · have hsame : m'.sendView = m.sendView :=
              Option.some.inj (hstored.symm.trans (hid ▸ projectInboundEmail_view hprojects))
            refine ⟨a, List.mem_cons_self, ?_⟩
            calc m'.resendEmailId = m.resendEmailId := congrArg SendView.resendEmailId hsame
              _ = some a.event.emailId := congrArg EmailMessage.resendEmailId hm
          · rw [hprojected.messages, if_neg hid, hmessages] at hview
            obtain ⟨w, hw, -⟩ := Option.map_eq_some_iff.mp hview
            obtain ⟨v, hv, -⟩ := Option.map_eq_some_iff.mp hw
            obtain ⟨n, hn, -⟩ := Option.map_eq_some_iff.mp hv
            have hkept := (quiet_projectInboundEmail _ _ _ _ _ _ _ hprojects).view
              _ _ (Database.view?_of_get? hn)
            have hsame : m'.sendView = n.sendView := Option.some.inj (hstored.symm.trans hkept)
            obtain ⟨b, hb, hidentified⟩ := h.identified n (Table.mem_of_get? hn)
            exact ⟨b, List.mem_cons_of_mem _ hb,
              (congrArg SendView.resendEmailId hsame).trans hidentified⟩ }

/-- The next arrival can be projected. -/
theorem progress (h : db.Corresponds rt arrivals participant done)
    (hcor : Correspondence rt arrivals participant) (hsub : ∀ b ∈ a :: done, b ∈ arrivals)
    (hnew : a ∉ done) (hroom : db.nextId + 1 < 16 ^ 32) (config : Config)
    (scan : Scan (EmailMessage Digest)) (now : Time) (base : JsString) :
    ∃ m db', projectInboundEmail rt config scan now a.event a.email base db = .ok (m, db') := by
  cases hx : projectInboundEmail rt config scan now a.event a.email base db with
  | ok result => exact ⟨result.1, result.2, rfl⟩
  | error e =>
      obtain ⟨-, hrefused⟩ | ⟨-, hfull | ⟨m, hm, hcarries⟩⟩ :=
        projectInboundEmail_fails h.sound h.tokened h.proper e hx
      · exact absurd (hcor.kept a (hsub a List.mem_cons_self)).storable hrefused
      · exact absurd hroom (Nat.not_lt.mpr hfull)
      · have hnot := h.carriesIdentity_eq_false hcor hsub hnew hm
        exact absurd (hcarries.symm.trans hnot) (by decide)

end Database.Corresponds

theorem Projects.corresponds {db : Database Digest} (h : Projects rt done db)
    (hcor : Correspondence rt arrivals participant) (hsub : ∀ b ∈ done, b ∈ arrivals)
    (hnodup : done.Nodup) :
    db.Corresponds rt arrivals participant done := by
  induction h with
  | nil => exact .initial rt arrivals participant
  | cons earlier projection ih =>
      obtain ⟨hnew, hnodup⟩ := List.nodup_cons.mp hnodup
      exact (ih (fun b hb => hsub b (List.mem_cons_of_mem _ hb)) hnodup).next hcor hsub
        hnew projection

/-! ### All arrivals -/

namespace Database.Corresponds

variable {db : Database Digest}

/-- The message of an arrival. -/
theorem exists_message (h : db.Corresponds rt arrivals participant done) (ha : a ∈ done) :
    ∃ m ∈ db.messages, m.internetMessageId = some (a.mid rt) := by
  obtain ⟨k, v, hv, hmid⟩ := h.threads.stored a ha
  obtain ⟨m, hm, rfl⟩ := Option.map_eq_some_iff.mp hv
  exact ⟨m, Table.mem_of_get? hm, hmid⟩

theorem message_unique (h : db.Corresponds rt arrivals participant done) {m n : EmailMessage Digest}
    {i : JsString} (hm : m ∈ db.messages) (hn : n ∈ db.messages)
    (hmi : m.internetMessageId = some i) (hni : n.internetMessageId = some i) : m = n :=
  h.sound.internetMessageId m hm n hn (by rw [hmi]; rfl) (hmi.trans hni.symm)

/-- A message has the parent that its email answers. -/
theorem parent_iff (h : db.Corresponds rt arrivals participant done)
    (hcor : Correspondence rt arrivals participant) (hsub : ∀ b ∈ done, b ∈ arrivals)
    (ha : a ∈ arrivals) {m n : EmailMessage Digest} (hm : m ∈ db.messages) (hn : n ∈ db.messages)
    (hma : m.internetMessageId = some (a.mid rt)) (hnb : n.internetMessageId = some (b.mid rt)) :
    m.parentMessageId = some n.id ↔ a.answered rt = some (b.mid rt) := by
  have hmview := EmailMessage.threadView_of_get? (Table.mem_iff_get?.mp hm)
  have hnview := EmailMessage.threadView_of_get? (Table.mem_iff_get?.mp hn)
  obtain ⟨a', ha', -, hmid, hreply, -⟩ := h.threads.origin _ _ hmview
  obtain rfl : a = a' := hcor.mid a ha a' (hsub a' ha') (Option.some.inj (hma.symm.trans hmid))
  constructor
  · intro hparent
    obtain ⟨w, hw, hanswered⟩ := h.threads.parent _ _ n.id hmview hparent
    obtain rfl : n.threadView = w := Option.some.inj (hnview.symm.trans hw)
    exact hreply.symm.trans (hanswered.trans hnb)
  · intro hanswered
    exact h.threads.linked _ _ n.id _ _ hmview hnview (hreply.trans hanswered) hnb

/-- The messages along the answers are in one conversation. -/
theorem conversation_of_answers (h : db.Corresponds rt arrivals participant done)
    (hcor : Correspondence rt arrivals participant) (hsub : ∀ b ∈ done, b ∈ arrivals)
    (hall : ∀ b ∈ arrivals, b ∈ done) (hab : Relation.ReflTransGen (Answers rt arrivals) a b)
    {m n : EmailMessage Digest} (hm : m ∈ db.messages) (hn : n ∈ db.messages)
    (hma : m.internetMessageId = some (a.mid rt)) (hnb : n.internetMessageId = some (b.mid rt)) :
    m.conversationId = n.conversationId := by
  induction hab using Relation.ReflTransGen.head_induction_on generalizing m with
  | refl => rw [h.message_unique hm hn hma hnb]
  | head hanswers _ ih =>
      next a' c =>
      obtain ⟨o, ho, hoc⟩ := h.exists_message (hall _ hanswers.2.1)
      have hparent : m.parentMessageId = some o.id :=
        (h.parent_iff hcor hsub hanswers.1 hm ho hma hoc).mpr hanswers.2.2
      obtain ⟨w, hw, -, hsame⟩ := h.proper.parent m.id _ o.id
        (EmailMessage.threadView_of_get? (Table.mem_iff_get?.mp hm)) hparent
      obtain rfl : o.threadView = w :=
        Option.some.inj ((EmailMessage.threadView_of_get? (Table.mem_iff_get?.mp ho)).symm.trans hw)
      have hconversation : o.conversationId = m.conversationId := hsame
      rw [← hconversation]
      exact ih ho hoc

end Database.Corresponds

/-- In whichever order the emails of a correspondence arrive, each can be projected and is stored
once, its parent is the email that it answers, and two of them are in one conversation if and only
if the emails they answer lead to a common one. -/
theorem correspondence_threads {arrivals : List Arrival} {participant : JsString}
    (hcor : Correspondence rt arrivals participant) (hnodup : arrivals.Nodup) :
    (∀ a done db, (∀ b ∈ a :: done, b ∈ arrivals) → (a :: done).Nodup → Projects rt done db →
      db.nextId + 1 < 16 ^ 32 → ∀ config scan now base,
        ∃ m db', projectInboundEmail rt config scan now a.event a.email base db = .ok (m, db')) ∧
    ∀ order db, order.Perm arrivals → Projects rt order db →
      (∀ a ∈ arrivals, ∃! m, m ∈ db.messages ∧ m.internetMessageId = some (a.mid rt)) ∧
      (∀ m ∈ db.messages, ∃ a ∈ arrivals, m.internetMessageId = some (a.mid rt)) ∧
      ∀ a ∈ arrivals, ∀ b ∈ arrivals, ∀ m ∈ db.messages, ∀ n ∈ db.messages,
        m.internetMessageId = some (a.mid rt) → n.internetMessageId = some (b.mid rt) →
          (m.parentMessageId = some n.id ↔ a.answered rt = some (b.mid rt)) ∧
            (m.conversationId = n.conversationId ↔ Kin rt arrivals a b) := by
  refine ⟨fun a done db hsub hdone hprojects hroom config scan now base => ?_,
    fun order db hperm hprojects => ?_⟩
  · obtain ⟨hnew, hdone⟩ := List.nodup_cons.mp hdone
    have hcorresponds :=
      hprojects.corresponds hcor (fun b hb => hsub b (List.mem_cons_of_mem _ hb)) hdone
    exact hcorresponds.progress hcor hsub hnew hroom config scan now base
  · have hsub : ∀ b ∈ order, b ∈ arrivals := fun b hb => hperm.subset hb
    have hall : ∀ b ∈ arrivals, b ∈ order := fun b hb => hperm.symm.subset hb
    have h := hprojects.corresponds hcor hsub (hperm.nodup_iff.mpr hnodup)
    refine ⟨fun a ha => ?_, fun m hm => ?_, fun a ha b hb m hm n hn hma hnb =>
      ⟨h.parent_iff hcor hsub ha hm hn hma hnb, fun hsame => ?_, ?_⟩⟩
    · obtain ⟨m, hm, hma⟩ := h.exists_message (hall a ha)
      exact ⟨m, ⟨hm, hma⟩, fun n ⟨hn, hna⟩ => h.message_unique hn hm hna hma⟩
    · obtain ⟨a, ha, -, hmid, -⟩ := h.threads.origin m.id _
        (EmailMessage.threadView_of_get? (Table.mem_iff_get?.mp hm))
      exact ⟨a, hsub a ha, hmid⟩
    · exact h.threads.kin m.id _ n.id _ a b
        (EmailMessage.threadView_of_get? (Table.mem_iff_get?.mp hm))
        (EmailMessage.threadView_of_get? (Table.mem_iff_get?.mp hn)) ha hb hma hnb hsame
    · rintro ⟨c, hac, hbc⟩
      have hc : c ∈ arrivals := by
        rcases hac.cases_tail with rfl | ⟨d, -, hdc⟩
        · exact ha
        · exact hdc.2.1
      obtain ⟨o, ho, hoc⟩ := h.exists_message (hall c hc)
      calc m.conversationId = o.conversationId :=
        h.conversation_of_answers hcor hsub hall hac hm ho hma hoc
        _ = n.conversationId := (h.conversation_of_answers hcor hsub hall hbc hn ho hnb hoc).symm

namespace Reference

/-- Of three emails, the second answers the first and the third the second; a fourth is alone. -/
def correspondence : List Arrival :=
  [⟨⟨js "1", js "p@q.co", [js "r@s.co"], 1, none, none⟩, mail (js "<a>") none⟩,
    ⟨⟨js "2", js "p@q.co", [js "r@s.co"], 2, none, none⟩, mail (js "<b>") (some (js "<a>"))⟩,
    ⟨⟨js "3", js "p@q.co", [js "r@s.co"], 3, none, none⟩, mail (js "<c>") (some (js "<b>"))⟩,
    ⟨⟨js "4", js "p@q.co", [js "r@s.co"], 4, none, none⟩, mail (js "<d>") none⟩]

/-- The database after the arrivals, the latest first. -/
def project : List Arrival → Option (Database SendRequest)
  | [] => some Database.initial
  | a :: done => (project done).bind fun db =>
      (projectInboundEmail .reference .reference (.sequential _) 0 a.event a.email []
        db).toOption.map Prod.snd

theorem project_spec {order : List Arrival} {db : Database SendRequest}
    (h : project order = some db) :
    Projects .reference order db := by
  induction order generalizing db with
  | nil =>
      obtain rfl := Option.some.inj h
      exact .nil
  | cons a done ih =>
      obtain ⟨db₀, hdone, hnext⟩ := Option.bind_eq_some_iff.mp h
      obtain ⟨result, hresult, rfl⟩ := Option.map_eq_some_iff.mp hnext
      cases hprojects : projectInboundEmail .reference .reference (.sequential _) 0 a.event
        a.email [] db₀ with
      | error e =>
          rw [hprojects] at hresult
          cases hresult
      | ok stored =>
          rw [hprojects] at hresult
          obtain rfl : stored = result := Option.some.inj hresult
          exact .cons (ih hdone) hprojects

/-- Every email refers to the one that it answers and to nothing else. -/
theorem correspondence_spec : Correspondence .reference correspondence (js "p@q.co") where
  kept a ha := by
    have htexts : ∀ a ∈ correspondence, ∀ t ∈ a.event.texts ++ a.email.texts, t.Kept := by
      decide +kernel
    have hidentifiers : ∀ a ∈ correspondence,
        ∀ id ∈ [a.event.emailId, (a.inbound .reference).internetMessageId] ++
        (a.inbound .reference).effectiveParentInternetMessageId.toList ++
        (a.email.attachments.getD []).map ResendReceivedAttachment.id, id.length ≤ 400 := by
          decide +kernel
    have hsizes : ∀ a ∈ correspondence, ∀ attachment ∈ a.email.attachments.getD [],
        attachment.size ≤ 9223372036854775807 := by
      decide
    exact ⟨htexts a ha, hidentifiers a ha, hsizes a ha⟩
  participant := by decide +kernel
  emailId := by decide +kernel
  mid := by decide +kernel
  unrouted := by decide +kernel
  references := by
    have hall : ∀ a ∈ correspondence, ∀ b ∈ correspondence,
        b.mid .reference ∈ (a.inbound .reference).references →
        a.answered .reference = some (b.mid .reference) := by decide +kernel
    exact fun a ha b hb h => Answers.kin ⟨ha, hb, hall a ha b hb h⟩

end Reference

/-- The last reply arrives first, and the email that it answers last. -/
theorem correspondence_threads_reference : ∃ order db, order.Perm Reference.correspondence ∧
    order ≠ Reference.correspondence.reverse ∧ Projects .reference order db ∧
      ∀ a ∈ Reference.correspondence, ∃! m, m ∈ db.messages ∧
        m.internetMessageId = some (a.mid .reference) := by
  have hstored : (Reference.project [Reference.correspondence[1], Reference.correspondence[0],
      Reference.correspondence[3], Reference.correspondence[2]]).isSome := by decide +kernel
  obtain ⟨db, hdb⟩ := Option.isSome_iff_exists.mp hstored
  have hperm : List.Perm [Reference.correspondence[1], Reference.correspondence[0],
      Reference.correspondence[3], Reference.correspondence[2]] Reference.correspondence := by
        decide +kernel
  have hprojects := Reference.project_spec hdb
  exact ⟨_, db, hperm, by decide +kernel, hprojects,
    ((correspondence_threads Reference.correspondence_spec (by decide +kernel)).2 _ db hperm
      hprojects).1⟩

end ResendConversation
