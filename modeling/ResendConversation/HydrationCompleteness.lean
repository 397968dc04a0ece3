import Mathlib.Data.List.Sort
import ResendConversation.AcceptedIds
import ResendConversation.ReplyForest
import ResendConversation.StateMerges

/-! # Completeness of the hydration

`hydrateReferencedOutboundMessages` asks the provider for the Message-IDs of the latest
outbound messages to a participant, before an email that refers to one of them is projected.
When it returns, it found one of the ids, or no accepted message within the retry window is
left without a Message-ID: a recent message whose lookup failed, or that is beyond the ten that
are looked up, makes it throw.  But it compares participants by a pattern.  An address with one
of the characters `%` and `_` also matches the mail of others, and one with a backslash can
miss its own. -/

namespace ResendConversation

open Foundation Tx JsString

variable {Digest : Type} {rt : Runtime Digest} {db db' : Database Digest}

/-! ### The function -/

/-- The conversation of the message is one of the participant's. -/
def EmailMessage.ofParticipant (rt : Runtime Digest) (db : Database Digest)
    (participantAddress : JsString) (m : EmailMessage Digest) : Bool :=
  (m.conversationId.bind db.conversations.get?).any fun c =>
    rt.toLowerCase c.participantAddress == rt.toLowerCase participantAddress

def hydrationIncomplete : TxError :=
  .error (js "Outbound threading metadata could not be fully hydrated")

def patternRefused : TxError := .error (js "LIKE pattern must not end with escape character")

/-- The loop over the answers of the provider, and the check after it.  `answers` are the answers
for the candidates and the order of the unordered queries of their recordings. -/
def hydrateCandidates (rt : Runtime Digest) (config : Config) (now : Time)
    (answers : EmailMessage Digest → Choice Digest) (ancestry : List JsString)
    (retryCutoff : Time) :
    List (EmailMessage Digest) → Bool → Bool → Database Digest →
      Except TxError Unit × Database Digest
  | [], matched, incomplete, db =>
      (if !matched && incomplete then .error hydrationIncomplete else .ok (), db)
  | m :: pending, matched, incomplete, db =>
      match (answers m).retrieved with
      | none => hydrateCandidates rt config now answers ancestry retryCutoff pending matched
          (incomplete || retryCutoff ≤ m.emailCreatedAt) db
      | some (internetMessageId, createdAt) =>
          match Tx.execute
            (recordOutboundInternetMessageId rt config (answers m).scan now m.id internetMessageId
              createdAt) db with
          | (.ok _, db) => hydrateCandidates rt config now answers ancestry retryCutoff pending
              (matched || ancestry.contains internetMessageId) incomplete db
          | (.error error, db) => (.error error, db)

def hydrateReferencedOutboundMessages (rt : Runtime Digest) (config : Config) (now : Time)
    (answers : EmailMessage Digest → Choice Digest) (participantAddress : JsString)
    (internetMessageIds : List JsString) (preferred : Option JsString) (db : Database Digest) :
    Except TxError Unit × Database Digest :=
  match hydrationCandidates rt db participantAddress internetMessageIds preferred with
  | none => (.error patternRefused, db)
  | some candidates =>
      let retryCutoff := now - outboundHydrationRetryWindowMs
      hydrateCandidates rt config now answers
        ((unique internetMessageIds).filter fun id => !id.isEmpty)
        retryCutoff (candidates.take maxOutboundHydrationCandidates) false
        (candidates[maxOutboundHydrationCandidates]?.any fun m => retryCutoff ≤ m.emailCreatedAt) db

/-- What the hydration for the participant promises when it returns. -/
def HydrationComplete (rt : Runtime Digest) (db : Database Digest)
    (participantAddress : JsString) : Prop :=
  ∀ (config : Config) (now : Time) (answers : EmailMessage Digest → Choice Digest)
    (ids : List JsString)
    (preferred : Option JsString) (db' : Database Digest),
    (∃ id ∈ ids, id ≠ []) → (∀ id, preferred.bind orNull = some id → id ∈ ids) →
      hydrateReferencedOutboundMessages rt config now answers participantAddress ids preferred db =
        (.ok (), db') →
        (∃ id ∈ ids, ∃ m ∈ db'.messages, m.ofParticipant rt db' participantAddress = true ∧
          m.internetMessageId = some id) ∨
          ∀ m ∈ db.messages, ∀ m' ∈ db'.messages, m'.id = m.id → m'.direction = .outbound →
            m'.state = .accepted → m'.ofParticipant rt db' participantAddress = true →
              now - outboundHydrationRetryWindowMs ≤ m.emailCreatedAt → m'.internetMessageId.isSome

/-! ### Participants -/

/-- The pattern finds the stored address if and only if it is the participant's, or is refused. -/
def MatchesFaithfully (rt : Runtime Digest) (participantAddress stored : JsString) : Prop :=
  ∀ found, matchesParticipant rt participantAddress stored = some found →
    found = (rt.toLowerCase stored == rt.toLowerCase participantAddress)

theorem codePoints_injective : Function.Injective codePoints := fun s t h => by
  rw [← flatMap_codePoints s, h, flatMap_codePoints]

/-- An address without `%`, `_` and backslash matches its own letters only. -/
theorem matchesFaithfully_of_plain {participantAddress : JsString}
    (h : (codePoints (rt.toLowerCase participantAddress)).all (fun c => !isLikeSpecial c) = true)
    (stored : JsString) : MatchesFaithfully rt participantAddress stored := by
  rintro found hfound
  rw [matchesParticipant, like_of_plain h, Option.some.injEq] at hfound
  rw [← hfound, Bool.eq_iff_iff, decide_eq_true_iff, beq_iff_eq]
  exact codePoints_injective.eq_iff

/-- The same of the conversation of a message. -/
theorem EmailMessage.ofParticipant_of_matches {participantAddress : JsString}
    {m : EmailMessage Digest} {found : Bool}
    (hfaithful : ∀ c ∈ db.conversations,
      MatchesFaithfully rt participantAddress c.participantAddress)
    (h : m.matchesParticipant rt db participantAddress = some found) :
    m.ofParticipant rt db participantAddress = found := by
  unfold EmailMessage.matchesParticipant at h
  unfold EmailMessage.ofParticipant
  cases hc : m.conversationId.bind db.conversations.get? with
  | none =>
      rw [hc] at h
      exact Option.some.inj h
  | some c =>
      rw [hc] at h
      obtain ⟨id, -, hid⟩ := Option.bind_eq_some_iff.mp hc
      exact (hfaithful c (Table.mem_of_get? hid) found h).symm

/-! ### Recordings -/

section
variable {lower : JsString → JsString} {t t' : Threads} {id c : Uuid} {mid : JsString}
    {sources children : List Uuid}

/-- The participant of the conversation of a message, in lower case. -/
def Threads.participant (lower : JsString → JsString) (t : Threads) (v : ThreadView) :
    Option JsString :=
  (v.conversationId.bind t.conversations).map fun row => lower row.participantAddress

theorem EmailMessage.ofParticipant_iff {participantAddress : JsString} {m : EmailMessage Digest} :
    m.ofParticipant rt db participantAddress = true ↔
      db.threads.participant rt.toLowerCase m.threadView =
        some (rt.toLowerCase participantAddress) := by
  unfold EmailMessage.ofParticipant Threads.participant
  cases hc : m.conversationId with
  | none => simp [EmailMessage.threadView, hc]
  | some c =>
      cases hrow : db.conversations.get? c with
      | none => simp [EmailMessage.threadView, hc, Database.threads, hrow]
      | some row =>
          simp [EmailMessage.threadView, hc, Database.threads, hrow, EmailConversation.view]

/-- A merge into a conversation of the same participant keeps the participants of the messages. -/
theorem Threads.participant_absorb (htarget : c ∉ sources)
    (habsorb : ∃ row, t.conversations c = some row ∧ ∀ s ∈ sources, ∃ source,
      t.conversations s = some source ∧ source.topicType = none ∧
        lower source.participantAddress = lower row.participantAddress) (v : ThreadView) :
    (t.absorb c sources).participant lower (v.move c sources) = t.participant lower v := by
  obtain ⟨row, hrow, hsources⟩ := habsorb
  by_cases hempty : sources = []
  · subst hempty
    have hmove : v.move c [] = v := by cases hv : v.conversationId <;> simp [ThreadView.move, hv]
    rw [Threads.absorb, if_pos rfl, hmove]
  rw [Threads.absorb, if_neg hempty]
  have hmerged : (t.apply (.merged c sources)).conversations c =
      some (row.merge (t.rows sources)) := by
    simp [Threads.apply, htarget, hrow]
  cases hv : v.conversationId with
  | none => simp [Threads.participant, ThreadView.move, hv]
  | some d =>
      by_cases hd : d ∈ sources
      · -- a moved message comes to the target
        obtain ⟨source, hsource, -, hsame⟩ := hsources d hd
        have hmove : (v.move c sources).conversationId = some c := by simp [ThreadView.move, hv, hd]
        rw [Threads.participant, Threads.participant, hmove, hv, Option.bind_some, Option.bind_some,
          hmerged, hsource, Option.map_some, Option.map_some, hsame]
        rfl
      · rw [ThreadView.move_of_notMem hv hd, Threads.participant, Threads.participant, hv,
          Option.bind_some, Option.bind_some]
        by_cases hdc : d = c
        · subst hdc
          rw [hmerged, hrow]
          rfl
        · simp [Threads.apply, hd, hdc]

/-- What a recording does to a message. -/
theorem Recorded.message_after (h : Recorded lower t t' id mid c sources children) {k : Uuid}
    {v' : ThreadView} (hv' : t'.messages k = some v') :
    ∃ v, t.messages k = some v ∧ v'.direction = v.direction ∧
      t'.participant lower v' = t.participant lower v ∧
      v'.internetMessageId = if k = id then some mid else v.internetMessageId := by
  rw [h.after] at hv' ⊢
  simp only [Threads.apply, Threads.absorb_messages, Option.map_eq_some_iff] at hv'
  obtain ⟨_, ⟨w, hw, rfl⟩, rfl⟩ := hv'
  have habsorb := @Threads.participant_absorb lower (t.apply (.identified id mid)) c sources
    h.target_notMem h.absorbable
  have hparticipant : ∀ u : ThreadView,
      (if k ∈ children then { u.move c sources with parentMessageId := some id } else u.move c
        sources).conversationId = (u.move c sources).conversationId := by
    intro u
    split
    · rfl
    · rfl
  have hview : ∀ u : ThreadView,
      (if k ∈ children then { u.move c sources with parentMessageId := some id } else u.move c
        sources).direction = u.direction ∧
      (if k ∈ children then { u.move c sources with parentMessageId := some id } else u.move c
        sources).internetMessageId = u.internetMessageId := by
    intro u
    unfold ThreadView.move
    split
    · split
      · exact ⟨rfl, rfl⟩
      · exact ⟨rfl, rfl⟩
    · split
      · exact ⟨rfl, rfl⟩
      · exact ⟨rfl, rfl⟩
  have hsame : ∀ u : ThreadView, Threads.participant lower
      { ((t.apply (.identified id mid)).absorb c sources).apply
        (.adopted id children) with nextId := t'.nextId }
      (if k ∈ children then { u.move c sources with parentMessageId := some id } else u.move
        c sources) = t.participant lower u := by
    intro u
    rw [Threads.participant, hparticipant]
    exact habsorb u
  simp only [Threads.onMessage] at hw
  by_cases hk : k = id
  · rw [if_pos hk] at hw
    obtain ⟨v, hv, rfl⟩ := Option.map_eq_some_iff.mp hw
    refine ⟨v, hv, (hview _).1, hsame _, ?_⟩
    rw [if_pos hk]
    exact (hview _).2
  · rw [if_neg hk] at hw
    refine ⟨w, hw, (hview w).1, hsame w, ?_⟩
    rw [if_neg hk]
    exact (hview w).2

theorem Recorded.message_kept (h : Recorded lower t t' id mid c sources children) {k : Uuid}
    (hk : (t.messages k).isSome) : (t'.messages k).isSome := by
  rw [h.after]
  simp only [Threads.apply, Threads.absorb_messages, Option.isSome_map, Threads.onMessage]
  split
  · simpa using hk
  · exact hk

end

/-- Only the messages with the given ids have another Message-ID than before. -/
structure HydratedTo (rt : Runtime Digest) (ids : List Uuid) (db db' : Database Digest) : Prop where
  origin : ∀ m' ∈ db'.messages, ∃ m ∈ db.messages, m'.id = m.id ∧ m'.direction = m.direction ∧
    m'.state = m.state ∧
    (∀ participantAddress, m'.ofParticipant rt db' participantAddress = m.ofParticipant rt db
      participantAddress) ∧
    (m'.internetMessageId = m.internetMessageId ∨ (m.id ∈ ids ∧ m'.internetMessageId.isSome))
  kept : ∀ m ∈ db.messages, ∃ m' ∈ db'.messages, m'.id = m.id

theorem HydratedTo.refl (ids : List Uuid) (db : Database Digest) : HydratedTo rt ids db db :=
  ⟨fun m hm => ⟨m, hm, rfl, rfl, rfl, fun _ => rfl, .inl rfl⟩, fun m hm => ⟨m, hm, rfl⟩⟩

theorem HydratedTo.trans {ids ids' : List Uuid} {db'' : Database Digest}
    (h : HydratedTo rt ids db db') (h' : HydratedTo rt ids' db' db'') :
    HydratedTo rt (ids ++ ids') db db'' where
  origin := by
    intro m'' hm''
    obtain ⟨m', hm', hid', hdirection', hstate', hparticipant', hmid'⟩ := h'.origin m'' hm''
    obtain ⟨m, hm, hid, hdirection, hstate, hparticipant, hmid⟩ := h.origin m' hm'
    refine ⟨m, hm, hid'.trans hid, hdirection'.trans hdirection, hstate'.trans hstate,
      fun address => (hparticipant' address).trans (hparticipant address), ?_⟩
    rcases hmid' with heq | ⟨hmem, hsome⟩
    · rw [heq]
      rcases hmid with heq' | ⟨hmem', hsome'⟩
      · exact .inl heq'
      · exact .inr ⟨List.mem_append_left _ hmem', hsome'⟩
    · exact .inr ⟨List.mem_append_right _ (hid ▸ hmem), hsome⟩
  kept := by
    intro m hm
    obtain ⟨m', hm', hid⟩ := h.kept m hm
    obtain ⟨m'', hm'', hid'⟩ := h'.kept m' hm'
    exact ⟨m'', hm'', hid'.trans hid⟩

/-- A recording gives its message the Message-ID, and no other message another one. -/
theorem recordOutboundInternetMessageId_hydrates {config : Config}
    {scan : Scan (EmailMessage Digest)} {now createdAt : Time} {id : Uuid} {mid : JsString}
    {m : EmailMessage Digest}
    (h : recordOutboundInternetMessageId rt config scan now id mid createdAt db = .ok (m, db')) :
    HydratedTo rt [id] db db' ∧ ∀ m' ∈ db'.messages, m'.id = id →
      m'.internetMessageId = some mid := by
  obtain ⟨c, sources, children, hrecorded⟩ := recordOutboundInternetMessageId_threads h
  have hpassive := quiet_recordOutboundInternetMessageId rt config scan now id mid createdAt h
  have horigin : ∀ m' ∈ db'.messages, ∃ m ∈ db.messages, m'.id = m.id ∧ m'.direction = m.direction ∧
      m'.state = m.state ∧
      (∀ participantAddress, m'.ofParticipant rt db' participantAddress = m.ofParticipant rt db
        participantAddress) ∧
      m'.internetMessageId = if m.id = id then some mid else m.internetMessageId := by
    intro m' hm'
    have hget' := Table.mem_iff_get?.mp hm'
    obtain ⟨v, hv, hdirection, hparticipant, hmid⟩ :=
      hrecorded.message_after (EmailMessage.threadView_of_get? hget')
    obtain ⟨m, hm, rfl⟩ := Option.map_eq_some_iff.mp hv
    have hid := Table.key_of_get? hm
    have hview := hpassive.view m'.id m.sendView (Database.view?_of_get? hm)
    rw [Database.view?_of_get? hget', Option.some.injEq] at hview
    refine ⟨m, Table.mem_of_get? hm, hid.symm, hdirection, congrArg SendView.state hview,
      fun address => ?_, ?_⟩
    · rw [Bool.eq_iff_iff, EmailMessage.ofParticipant_iff, EmailMessage.ofParticipant_iff,
        hparticipant]
    · rw [hid]
      exact hmid
  refine ⟨⟨fun m' hm' => ?_, fun m hm => ?_⟩, fun m' hm' hid => ?_⟩
  · obtain ⟨m, hm, hid, hdirection, hstate, hparticipant, hmid⟩ := horigin m' hm'
    refine ⟨m, hm, hid, hdirection, hstate, hparticipant, ?_⟩
    split at hmid
    next heq => exact .inr ⟨List.mem_singleton.mpr heq, by rw [hmid]; rfl⟩
    next => exact .inl hmid
  · have hsome : (db.threads.messages m.id).isSome := by
      rw [EmailMessage.threadView_of_get? (Table.mem_iff_get?.mp hm)]
      rfl
    obtain ⟨v', hv'⟩ := Option.isSome_iff_exists.mp (hrecorded.message_kept hsome)
    obtain ⟨m', hm', -⟩ := Option.map_eq_some_iff.mp hv'
    exact ⟨m', Table.mem_of_get? hm', Table.key_of_get? hm'⟩
  · obtain ⟨m, -, hmid', -, -, -, hmid⟩ := horigin m' hm'
    rw [hmid, if_pos (hmid'.symm.trans hid)]

/-! ### The loop -/

section
variable {config : Config} {now retryCutoff : Time} {answers : EmailMessage Digest → Choice Digest}
  {ancestry : List JsString}

/-- What the loop leaves behind when it returns: a candidate with a Message-ID of the ancestry,
or no failure and a Message-ID for every recent candidate. -/
theorem hydrateCandidates_ok {pending : List (EmailMessage Digest)}
    (hnodup : (pending.map EmailMessage.id).Nodup) :
    ∀ {matched incomplete : Bool} {db db' : Database Digest},
      hydrateCandidates rt config now answers ancestry retryCutoff pending matched incomplete db =
        (.ok (), db') → HydratedTo rt (pending.map EmailMessage.id) db db' ∧
          (matched = true ∨
            (∃ m ∈ pending, ∃ mid ∈ ancestry, ∀ m' ∈ db'.messages, m'.id = m.id →
              m'.internetMessageId = some mid) ∨
            (incomplete = false ∧ ∀ m ∈ pending, retryCutoff ≤ m.emailCreatedAt →
              ∀ m' ∈ db'.messages, m'.id = m.id → m'.internetMessageId.isSome)) := by
  induction pending with
  | nil =>
      intro matched incomplete db db' h
      simp only [hydrateCandidates, Prod.mk.injEq] at h
      obtain ⟨hchecked, rfl⟩ := h
      refine ⟨.refl _ _, ?_⟩
      cases matched with
      | true => exact .inl rfl
      | false =>
          cases incomplete with
          | true => cases hchecked
          | false => exact .inr (.inr ⟨rfl, by simp⟩)
  | cons m pending ih =>
      intro matched incomplete db db' h
      rw [List.map_cons, List.nodup_cons] at hnodup
      obtain ⟨hfresh, hnodup⟩ := hnodup
      unfold hydrateCandidates at h
      split at h
      · -- the lookup failed
        obtain ⟨hrest, hresult⟩ := ih hnodup h
        refine ⟨(HydratedTo.refl [m.id] db).trans hrest, ?_⟩
        rcases hresult with hmatched | ⟨x, hx, hfound⟩ | ⟨hcomplete, hrecent⟩
        · exact .inl hmatched
        · exact .inr (.inl ⟨x, List.mem_cons_of_mem m hx, hfound⟩)
        · rw [Bool.or_eq_false_iff, decide_eq_false_iff_not] at hcomplete
          refine .inr (.inr ⟨hcomplete.1, fun x hx hcutoff => ?_⟩)
          rcases List.mem_cons.mp hx with rfl | hx
          · exact absurd hcutoff hcomplete.2
          · exact hrecent x hx hcutoff
      next mid createdAt _ =>
        split at h
        next db₁ hexecute =>
          have hrecord := ok_of_execute hexecute
          obtain ⟨hfirst, hnamed⟩ := recordOutboundInternetMessageId_hydrates hrecord
          obtain ⟨hrest, hresult⟩ := ih hnodup h
          -- no later recording changes the Message-ID of this candidate
          have hkept : ∀ m' ∈ db'.messages, m'.id = m.id → m'.internetMessageId = some mid := by
            intro m' hm' hid
            obtain ⟨m₁, hm₁, hid₁, -, -, -, hmid⟩ := hrest.origin m' hm'
            rcases hmid with heq | ⟨hmem, -⟩
            · rw [heq]
              exact hnamed m₁ hm₁ (hid₁.symm.trans hid)
            · exact absurd (hid₁.symm.trans hid ▸ hmem) hfresh
          refine ⟨hfirst.trans hrest, ?_⟩
          rcases hresult with hmatched | ⟨x, hx, hfound⟩ | ⟨hcomplete, hrecent⟩
          · rw [Bool.or_eq_true, List.contains_iff_mem] at hmatched
            rcases hmatched with hmatched | hmem
            · exact .inl hmatched
            · exact .inr (.inl ⟨m, List.mem_cons_self, mid, hmem, hkept⟩)
          · exact .inr (.inl ⟨x, List.mem_cons_of_mem m hx, hfound⟩)
          · refine .inr (.inr ⟨hcomplete, fun x hx hcutoff => ?_⟩)
            rcases List.mem_cons.mp hx with rfl | hx
            · intro m' hm' hid
              rw [hkept m' hm' hid]
              rfl
            · exact hrecent x hx hcutoff
        next => cases h

end

/-! ### The candidates -/

/-- An accepted message whose Message-ID is not known. -/
def EmailMessage.Unrecorded (m : EmailMessage Digest) : Bool :=
  m.direction == .outbound && m.state == .accepted && m.resendEmailId.isSome &&
    m.internetMessageId.isNone

/-- The messages that the pattern finds, from the latest to the earliest. -/
def candidatesOf (rt : Runtime Digest) (db : Database Digest) (participantAddress : JsString) :
    List (EmailMessage Digest) :=
  db.messages.selectSorted
    (fun m => m.Unrecorded && m.matchesParticipant rt db participantAddress == some true) fun a b =>
      b.emailCreatedAt < a.emailCreatedAt ∨ (a.emailCreatedAt = b.emailCreatedAt ∧ b.id ≤ a.id)

theorem recordedAncestor_cases {ids : List JsString} {preferred : Option JsString} {id : JsString}
    (h : recordedAncestor ids preferred id = true) :
    preferred.bind orNull = some id ∨ id ∈ ids := by
  unfold recordedAncestor at h
  cases hpreferred : preferred.bind orNull with
  | some chosen =>
      rw [hpreferred] at h
      exact .inl (congrArg some (beq_iff_eq.mp h).symm)
  | none =>
      rw [hpreferred] at h
      have hmem := List.contains_iff_mem.mp h
      exact .inr (mem_unique.mp (List.mem_filter.mp hmem).1)

/-- The function asks for the latest candidates where no comparison is refused, or for nothing. -/
theorem hydrationCandidates_cases {participantAddress : JsString} {ids : List JsString}
    {preferred : Option JsString} {candidates : List (EmailMessage Digest)}
    (h : hydrationCandidates rt db participantAddress ids preferred = some candidates) :
    (candidates = (candidatesOf rt db participantAddress).take
      (maxOutboundHydrationCandidates + 1) ∧
        ∀ m ∈ db.messages, m.Unrecorded = true →
          (m.matchesParticipant rt db participantAddress).isSome) ∨
      (candidates = [] ∧
        ((∀ id ∈ ids, id = []) ∨
          ∃ m ∈ db.messages, m.matchesParticipant rt db participantAddress = some true ∧
          ∃ id, m.internetMessageId = some id ∧ (preferred.bind orNull = some id ∨ id ∈ ids))) := by
  simp only [hydrationCandidates] at h
  split at h
  next hempty =>
    refine .inr ⟨(Option.some.inj h).symm, .inl fun id hid => ?_⟩
    by_contra hne
    have hmem : id ∈ (unique ids).filter fun id => !id.isEmpty := by simp [mem_unique, hid, hne]
    rw [List.isEmpty_iff.mp hempty] at hmem
    cases hmem
  · split at h
    · cases h
    · split at h
      next hknown =>
        obtain ⟨m, hm, hfound⟩ := List.any_eq_true.mp hknown
        rw [Bool.and_eq_true, beq_iff_eq] at hfound
        obtain ⟨id, hid, hrecorded⟩ := (Option.any_eq_true _ _).mp hfound.1
        exact .inr ⟨(Option.some.inj h).symm,
          .inr ⟨m, hm, hfound.2, id, hid, recordedAncestor_cases hrecorded⟩⟩
      · split at h
        · cases h
        next hcompared =>
          refine .inl ⟨(Option.some.inj h).symm, fun m hm hunrecorded => ?_⟩
          rw [List.any_eq_true, not_exists] at hcompared
          have hnone := fun hrefused =>
            hcompared m ⟨hm, by rw [Bool.and_eq_true]; exact ⟨hunrecorded, hrefused⟩⟩
          simpa [Option.isSome_iff_ne_none] using hnone

theorem pairwise_candidatesOf (rt : Runtime Digest) (db : Database Digest)
    (participantAddress : JsString) :
    (candidatesOf rt db participantAddress).Pairwise fun a b => b.emailCreatedAt ≤
      a.emailCreatedAt := by
  let latest := fun a b : EmailMessage Digest =>
    b.emailCreatedAt < a.emailCreatedAt ∨ (a.emailCreatedAt = b.emailCreatedAt ∧ b.id ≤ a.id)
  have htotal : Std.Total latest := ⟨fun a b => by
    dsimp only [latest]
    grind⟩
  have htrans : IsTrans _ latest := ⟨fun a b d => by
    dsimp only [latest]
    grind⟩
  refine (List.pairwise_insertionSort latest _).imp fun {a b} h => ?_
  rcases h with hlt | ⟨heq, -⟩
  · exact hlt.le
  · exact heq.ge

/-- A candidate that is left out is no later than the one after the last that is not. -/
theorem mem_take_of_recent {α : Type} {f : α → Time} {l : List α}
    (hl : l.Pairwise fun a b => f b ≤ f a) {n : ℕ} {cutoff : Time}
    (hnext : l[n]?.any (fun a => cutoff ≤ f a) = false) {a : α} (ha : a ∈ l)
    (hrecent : cutoff ≤ f a) :
    a ∈ l.take n := by
  by_contra hnot
  obtain ⟨i, hi, rfl⟩ := List.mem_iff_getElem.mp ha
  have hn : n ≤ i := by
    by_contra hlt
    exact hnot (List.mem_take_iff_getElem.mpr ⟨i, by omega, rfl⟩)
  have hlast : f l[i] ≤ f l[n] := by
    rcases hn.lt_or_eq with hlt | rfl
    · exact List.pairwise_iff_getElem.mp hl n i (by omega) hi hlt
    · exact le_rfl
  rw [List.getElem?_eq_getElem (by omega), Option.any_some, decide_eq_false_iff_not] at hnext
  exact hnext (hrecent.trans hlast)

/-! ### Completeness -/

/-- A store whose accepted messages have their provider identifiers. -/
def Database.AcceptedIdentified (db : Database Digest) : Prop :=
  ∀ m ∈ db.messages, m.state = .accepted → m.resendEmailId.isSome

/-- The hydration is complete where the pattern of the participant finds what it should. -/
theorem Database.AcceptedIdentified.hydrationComplete {participantAddress : JsString}
    (hids : db.AcceptedIdentified)
    (hfaithful : ∀ c ∈ db.conversations,
      MatchesFaithfully rt participantAddress c.participantAddress) :
    HydrationComplete rt db participantAddress := by
  intro config now answers ids preferred db' hnonempty hpreferred hreturns
  set retryCutoff := now - outboundHydrationRetryWindowMs with hcutoff
  unfold hydrateReferencedOutboundMessages at hreturns
  split at hreturns
  · cases hreturns
  next candidates hcandidates =>
  dsimp only at hreturns
  rw [← hcutoff] at hreturns
  rcases hydrationCandidates_cases hcandidates with ⟨rfl, hcompared⟩ | ⟨rfl, hwhy⟩
  · rw [List.take_take,
      show min maxOutboundHydrationCandidates (maxOutboundHydrationCandidates + 1) =
      maxOutboundHydrationCandidates from rfl,
        List.getElem?_take_of_lt (Nat.lt_succ_self _)] at hreturns
    have hnodup : (((candidatesOf rt db participantAddress).take maxOutboundHydrationCandidates).map
        EmailMessage.id).Nodup := by
      rw [List.map_take]
      exact (db.messages.nodup_map_selectSorted _ _).sublist (List.take_sublist _ _)
    obtain ⟨hhydrated, hresult⟩ := hydrateCandidates_ok hnodup hreturns
    rcases hresult with hmatched | ⟨m, hm, mid, hmid, hfound⟩ | ⟨hcomplete, hrecent⟩
    · cases hmatched
    · -- a candidate has one of the ids
      have hcandidate := Table.mem_selectSorted.mp (List.mem_of_mem_take hm)
      obtain ⟨m', hm', hid⟩ := hhydrated.kept m hcandidate.1
      obtain ⟨m₀, hm₀, hid₀, -, -, hparticipant, -⟩ := hhydrated.origin m' hm'
      obtain rfl := Table.key_inj hm₀ hcandidate.1 (hid₀.symm.trans hid)
      rw [Bool.and_eq_true, beq_iff_eq] at hcandidate
      refine .inl ⟨mid, mem_unique.mp (List.mem_filter.mp hmid).1, m', hm', ?_, hfound m' hm' hid⟩
      rw [hparticipant]
      exact EmailMessage.ofParticipant_of_matches hfaithful hcandidate.2.2
    · refine .inr fun m hm m' hm' hid hdirection hstate hparticipant hwindow => ?_
      obtain ⟨m₀, hm₀, hid₀, hdirection₀, hstate₀, hparticipant₀, hmid⟩ := hhydrated.origin m' hm'
      obtain rfl := Table.key_inj hm₀ hm (hid₀.symm.trans hid)
      rcases hmid with heq | ⟨-, hsome⟩
      · cases hlacks : m₀.internetMessageId with
        | some mid => simp [heq, hlacks]
        | none =>
            -- the message is a candidate, and recent ones are looked up
            have haccepted := hstate₀.symm.trans hstate
            have hunrecorded : m₀.Unrecorded = true := by
              simp [EmailMessage.Unrecorded, hdirection₀.symm.trans hdirection, haccepted, hlacks,
                hids m₀ hm haccepted]
            obtain ⟨found, hfound⟩ := Option.isSome_iff_exists.mp (hcompared m₀ hm hunrecorded)
            have howns := EmailMessage.ofParticipant_of_matches hfaithful hfound
            rw [← hparticipant₀, hparticipant] at howns
            have hcandidate : m₀ ∈ candidatesOf rt db participantAddress := by
              refine Table.mem_selectSorted.mpr ⟨hm, ?_⟩
              rw [hunrecorded, hfound, ← howns]
              rfl
            have hlooked := mem_take_of_recent (pairwise_candidatesOf rt db participantAddress)
              hcomplete hcandidate hwindow
            exact hrecent m₀ hlooked hwindow m' hm' hid
      · exact hsome
  · obtain rfl : db = db' := by
      simp only [List.take_nil, List.getElem?_nil, Option.any_none, hydrateCandidates,
        Bool.and_false] at hreturns
      exact congrArg Prod.snd hreturns
    rcases hwhy with hempty | ⟨m, hm, hparticipant, id, hmid, hknown⟩
    · obtain ⟨id, hid, hne⟩ := hnonempty
      exact absurd (hempty id hid) hne
    · have hid : id ∈ ids := hknown.elim (hpreferred id) fun hmem => hmem
      exact .inl ⟨id, hid, m, hm,
        EmailMessage.ofParticipant_of_matches hfaithful hparticipant, hmid⟩

/-! ### Where the pattern goes wrong -/

/-- An email received in the conversation `0`, under a Message-ID. -/
def plantedMessage : EmailMessage Digest where
  id := 2
  conversationId := some 0
  direction := .inbound
  state := .received
  resendEmailId := some (js "1")
  internetMessageId := some (js "<x>")
  fromAddress := []
  toAddress := []
  subject := []
  emailCreatedAt := 0
  createdAt := 0

/-- An accepted message in the conversation `1`, whose Message-ID is not known yet. -/
def sentMessage : EmailMessage Digest where
  id := 3
  conversationId := some 1
  direction := .outbound
  state := .accepted
  resendEmailId := some (js "2")
  fromAddress := []
  toAddress := []
  subject := []
  emailCreatedAt := 0
  createdAt := 0

/-- A store with a received email of one participant, and a message to another. -/
def plantedStore (sender recipient : JsString) : Database Digest :=
  { (Database.initial : Database Digest) with
    nextId := 4
    conversations :=
      (Table.empty.set (bareConversation 0 sender)).set (bareConversation 1 recipient)
    messages := (Table.empty.set plantedMessage).set sentMessage }

section
variable {participantAddress sender recipient : JsString}

theorem plantedStore_rows :
    (plantedStore sender recipient : Database Digest).messages.rows =
    [sentMessage, plantedMessage] := rfl

theorem mem_plantedStore {m : EmailMessage Digest} :
    m ∈ (plantedStore sender recipient : Database Digest).messages ↔
      m = sentMessage ∨ m = plantedMessage := by
  rw [Table.mem_def, plantedStore_rows, List.mem_cons, List.mem_singleton]

theorem plantedStore_identified :
    (plantedStore sender recipient : Database Digest).AcceptedIdentified := by
  intro m hm haccepted
  rcases mem_plantedStore.mp hm with rfl | rfl
  · rfl
  · cases haccepted

theorem sentMessage_matches : (sentMessage : EmailMessage Digest).matchesParticipant rt
    (plantedStore sender recipient) participantAddress =
      matchesParticipant rt participantAddress recipient := rfl

theorem plantedMessage_matches : (plantedMessage : EmailMessage Digest).matchesParticipant rt
    (plantedStore sender recipient) participantAddress =
      matchesParticipant rt participantAddress sender := rfl

theorem sentMessage_ofParticipant : (sentMessage : EmailMessage Digest).ofParticipant rt
    (plantedStore sender recipient) participantAddress =
      (rt.toLowerCase recipient == rt.toLowerCase participantAddress) := rfl

theorem plantedMessage_ofParticipant : (plantedMessage : EmailMessage Digest).ofParticipant rt
    (plantedStore sender recipient) participantAddress =
      (rt.toLowerCase sender == rt.toLowerCase participantAddress) := rfl

/-- A Message-ID of another participant that the pattern matches makes the function return. -/
theorem hydrationCandidates_planted
    (h : matchesParticipant rt participantAddress sender = some true) :
    hydrationCandidates rt (plantedStore sender recipient : Database Digest) participantAddress
    [js "<x>"] none = some [] := by
  have hsent : (sentMessage : EmailMessage Digest).internetMessageId.any
    (recordedAncestor [js "<x>"] none) = false := rfl
  have hplanted : (plantedMessage : EmailMessage Digest).internetMessageId.any
      (recordedAncestor [js "<x>"] none) = true :=
    (by decide : recordedAncestor [js "<x>"] none (js "<x>") = true)
  have hids : ((unique [js "<x>"]).filter fun id => !id.isEmpty).isEmpty = false := by decide
  simp [hydrationCandidates, plantedStore_rows, plantedMessage_matches, hsent, hplanted, hids, h]

/-- It asks for nothing where the pattern misses the participant. -/
theorem hydrationCandidates_missed
    (h : matchesParticipant rt participantAddress recipient = some false) :
    hydrationCandidates rt (plantedStore sender recipient : Database Digest) participantAddress
    [js "<y>"] none = some [] := by
  have hsent : (sentMessage : EmailMessage Digest).internetMessageId.any
    (recordedAncestor [js "<y>"] none) = false := rfl
  have hplanted : (plantedMessage : EmailMessage Digest).internetMessageId.any
      (recordedAncestor [js "<y>"] none) = false :=
    (by decide : recordedAncestor [js "<y>"] none (js "<x>") = false)
  have hids : ((unique [js "<y>"]).filter fun id => !id.isEmpty).isEmpty = false := by decide
  simp [hydrationCandidates, plantedStore_rows, plantedMessage_matches, sentMessage_matches, hsent,
    hplanted, hids, h]
  refine ⟨by rintro ⟨⟩, List.eq_nil_iff_forall_not_mem.mpr fun m hm => ?_⟩
  obtain ⟨hmem, hfound⟩ := Table.mem_selectSorted.mp hm
  rcases mem_plantedStore.mp hmem with rfl | rfl
  · simp [sentMessage_matches, h] at hfound
  · simp [plantedMessage] at hfound

end

/-- What is promised where the function asks for nothing. -/
theorem HydrationComplete.of_nothing {participantAddress id : JsString}
    (h : HydrationComplete rt db participantAddress) (hne : id ≠ [])
    (hnothing : hydrationCandidates rt db participantAddress [id] none = some []) (now : Time) :
    (∃ m ∈ db.messages, m.ofParticipant rt db participantAddress = true ∧
      m.internetMessageId = some id) ∨
      ∀ m ∈ db.messages, m.direction = .outbound → m.state = .accepted →
        m.ofParticipant rt db participantAddress = true → now - outboundHydrationRetryWindowMs ≤
          m.emailCreatedAt → m.internetMessageId.isSome := by
  have hreturns : hydrateReferencedOutboundMessages rt Config.reference now (fun _ => {})
      participantAddress [id]
      none db = (.ok (), db) := by
    rw [hydrateReferencedOutboundMessages, hnothing]
    rfl
  rcases h _ _ _ _ _ _ ⟨id, List.mem_singleton_self id, hne⟩ (fun _ hp => by cases hp) hreturns with
    ⟨id', hid', hfound⟩ | hcomplete
  · obtain rfl := List.mem_singleton.mp hid'
    exact .inl hfound
  · exact .inr fun m hm => hcomplete m hm m hm rfl

/-- A participant whose hydration is complete over every store has a faithful pattern. -/
theorem MatchesFaithfully.of_complete {participantAddress : JsString}
    (h : ∀ db : Database Digest, db.AcceptedIdentified → HydrationComplete rt db participantAddress)
    (stored : JsString) : MatchesFaithfully rt participantAddress stored := by
  -- where the function asks for nothing, the sent message of the store stays as it is
  have hfound : ∀ (sender recipient : JsString) {id : JsString}, id ≠ [] →
      hydrationCandidates rt (plantedStore sender recipient : Database Digest)
        participantAddress [id] none =
        some [] → rt.toLowerCase recipient = rt.toLowerCase participantAddress →
        ∃ m ∈ (plantedStore sender recipient : Database Digest).messages,
          m.ofParticipant rt (plantedStore sender recipient) participantAddress = true ∧
            m.internetMessageId = some id := by
    intro sender recipient id hne hnothing hrecipient
    refine ((h _ plantedStore_identified).of_nothing hne hnothing 0).resolve_right
      fun hcomplete => ?_
    have hlacks := hcomplete sentMessage (mem_plantedStore.mpr (.inl rfl)) rfl rfl
      (by rw [sentMessage_ofParticipant, hrecipient, beq_self_eq_true])
      (by decide : (0 : Time) - outboundHydrationRetryWindowMs ≤ 0)
    cases hlacks
  intro found hmatches
  cases found with
  | true =>
      obtain ⟨m, hm, howns, hmid⟩ := hfound stored participantAddress (by decide)
        (hydrationCandidates_planted hmatches) rfl
      rcases mem_plantedStore.mp hm with rfl | rfl
      · cases hmid
      · rw [← howns, plantedMessage_ofParticipant]
  | false =>
      by_contra hsame
      obtain ⟨m, hm, -, hmid⟩ :=
        hfound stored stored (by decide) (hydrationCandidates_missed hmatches)
        (by simpa using hsame)
      rcases mem_plantedStore.mp hm with rfl | rfl
      · cases hmid
      · exact absurd (Option.some.inj hmid) (by decide)

/-! ### The handler that runs alone -/

section
variable [DecidableEq Digest] {pid : ℕ}

/-- Only the process takes steps, whatever it is answered. -/
def Lonely (pid : ℕ) (_ : System Digest) (a : Action Digest) : Prop := ∃ c, a = .run pid c

/-- Where the handler goes when the hydration returns or throws. -/
def ReceiveHandler.hydrated (h : ReceiveHandler Digest) (email : Option ResendEmail) :
    Except TxError Unit → Proc Digest
  | .error _ => h.goto .failed
  | .ok _ =>
      match email with
      | none => h.goto (.completed none)
      | some email => h.goto (.project email)

omit [DecidableEq Digest] in
theorem System.get?_become (s : System Digest) (pid : ℕ) (p : Proc Digest) :
    (s.become pid p).procs.get? pid = some (pid, p) := by
  simp [System.become]

/-- The steps of a handler in its loop compute `hydrateCandidates`. -/
theorem ReceiveHandler.hydrate_alone {h : ReceiveHandler Digest} {email : Option ResendEmail}
    (answers : EmailMessage Digest → Choice Digest) {ancestry : List JsString}
    {retryCutoff : Time} :
    ∀ {pending : List (EmailMessage Digest)} {matched incomplete : Bool} {s : System Digest},
      s.procs.get? pid =
        some (pid, h.goto (.hydrate ⟨pending, ancestry, retryCutoff, matched, incomplete⟩ email)) →
        ∃ t result, Run (ResendConversation.step rt) (Lonely pid) s t ∧
          hydrateCandidates rt s.config s.now answers ancestry retryCutoff pending matched
            incomplete s.db = (result, t.db) ∧
          t.procs.get? pid = some (pid, h.hydrated email result) := by
  have hstep : ∀ {s : System Digest} {hydration : Hydration Digest},
      s.procs.get? pid = some (pid, h.goto (.hydrate hydration email)) → ∀ c,
        ResendConversation.step rt s (.run pid c) =
          some ({ h with phase := .hydrate hydration email }.hydrate rt s pid hydration
            email c) := by
    intro s hydration hproc c
    rw [ResendConversation.step, hproc]
    rfl
  intro pending
  induction pending with
  | nil =>
      intro matched incomplete s hproc
      have hlast := hstep hproc {}
      simp only [hydrate] at hlast
      unfold hydrateCandidates
      cases hthrows : !matched && incomplete with
      | true =>
          rw [hthrows] at hlast
          exact ⟨_, .error hydrationIncomplete, (Run.refl s).tail ⟨{}, rfl⟩ hlast, rfl,
            System.get?_become _ _ _⟩
      | false =>
          rw [hthrows] at hlast
          cases email with
          | none => exact ⟨_, .ok (), (Run.refl s).tail ⟨{}, rfl⟩ hlast, rfl,
              System.get?_become _ _ _⟩
          | some email =>
              exact ⟨_, .ok (), (Run.refl s).tail ⟨{}, rfl⟩ hlast, rfl, System.get?_become _ _ _⟩
  | cons m pending ih =>
      intro matched incomplete s hproc
      have hnext := hstep hproc (answers m)
      simp only [hydrate] at hnext
      unfold hydrateCandidates
      cases hanswer : (answers m).retrieved with
      | none =>
          -- the lookup failed
          rw [hanswer] at hnext
          obtain ⟨t, result, hrun, hrest, hend⟩ := ih (System.get?_become s pid _)
          exact ⟨t, result, hrun.head ⟨_, rfl⟩ hnext, hrest, hend⟩
      | some found =>
          obtain ⟨internetMessageId, createdAt⟩ := found
          rw [hanswer] at hnext
          dsimp only at hnext ⊢
          simp only [System.transact] at hnext
          cases hrecord :
            Tx.execute (recordOutboundInternetMessageId rt s.config (answers m).scan s.now m.id
              internetMessageId createdAt) s.db with
          | mk result db =>
              rw [hrecord] at hnext
              cases result with
              | error error =>
                  exact ⟨_, .error error, (Run.refl s).tail ⟨_, rfl⟩ hnext, rfl,
                  System.get?_become _ _ _⟩
              | ok message =>
                  obtain ⟨t, result, hrun, hrest, hend⟩ :=
                    ih (System.get?_become { s with db } pid _)
                  exact ⟨t, result, hrun.head ⟨_, rfl⟩ hnext, hrest, hend⟩

/-- A handler that begins the hydration and runs alone computes
`hydrateReferencedOutboundMessages`. -/
theorem ReceiveHandler.hydrates {h : ReceiveHandler Digest} {email : Option ResendEmail}
    (answers : EmailMessage Digest → Choice Digest) {participantAddress : JsString}
    {ids : List JsString} {preferred : Option JsString} {s : System Digest}
    (hproc : s.procs.get? pid =
      some (pid, h.beginHydration rt s participantAddress ids preferred email)) :
    ∃ t result, Run (ResendConversation.step rt) (Lonely pid) s t ∧
      hydrateReferencedOutboundMessages rt s.config s.now answers participantAddress ids
        preferred s.db = (result, t.db) ∧
      t.procs.get? pid = some (pid, h.hydrated email result) := by
  unfold beginHydration at hproc
  unfold hydrateReferencedOutboundMessages
  cases hcandidates : hydrationCandidates rt s.db participantAddress ids preferred with
  | none =>
      rw [hcandidates] at hproc
      exact ⟨s, .error patternRefused, .refl s, rfl, hproc⟩
  | some candidates =>
      rw [hcandidates] at hproc
      exact hydrate_alone answers hproc

end

/-! ### Completeness and its limits -/

namespace Reference

/-- A message to the participant that the provider has accepted. -/
def accepted (participantAddress : JsString) : List (Action SendRequest) :=
  grants ++ submit 0 (.opening true
    { topic := ⟨js "t", js "e", js "title"⟩
      participant := ⟨participantAddress, none⟩
      message := { «from» := sender, replyTo } }) (js "k") ++
    [.start 1 (.batchDrain 10) {}, .run 1 {}, .reach 5 (some [js "r"]) (.sent [js "r"]),
      .run 1 {}, .run 1 {}]

/-- An email of another participant after it, whose address the pattern matches. -/
def lookalike : List (Action SendRequest) :=
  accepted (js "p_x@q.co") ++
    receive 2 (js "1") (js "i") { mail (js "<x>") none with «from» := js "pax@q.co" }

end Reference

end ResendConversation
