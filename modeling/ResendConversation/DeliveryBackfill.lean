import Mathlib.Data.List.Induction
import Mathlib.Data.List.Sort
import ResendConversation.Background
import ResendConversation.System

/-! # The backfill of the delivery state

The migration that added the delivery columns filled them from the ledger of webhooks in SQL:
for every provider email the last event that counts, where a delay counts only when the email has
no other delivery event, and the first delivery.  `reduceDeliveryEvents` computes the same from
the sorted ledger, so a later projection writes what the backfill wrote. -/

namespace ResendConversation

open Foundation Tx

variable {Digest : Type}

/-! ### The migration -/

/-- The event types that settle the fate of an email. -/
def terminalEventTypes : List JsString :=
  [js "email.delivered", js "email.bounced", js "email.complained", js "email.suppressed",
    js "email.failed"]

/-- The event types that the backfill reads. -/
def deliveryEventTypes : List JsString :=
  [js "email.delivered", js "email.delivery_delayed", js "email.bounced", js "email.complained",
    js "email.suppressed", js "email.failed"]

/-- `NOT EXISTS (SELECT 1 … terminal_event)`. -/
def undecided (ledger : List EmailWebhookEvent) (emailId : JsString) : Bool :=
  !ledger.any fun terminal =>
    terminal.emailId == emailId && terminalEventTypes.contains terminal.eventType

/-- The rows of `current_events` before `DISTINCT ON`. -/
def isCurrentCandidate (ledger : List EmailWebhookEvent) (e : EmailWebhookEvent) : Bool :=
  deliveryEventTypes.contains e.eventType &&
    (e.eventType != js "email.delivery_delayed" || undecided ledger e.emailId)

/-- `current_events`: the first row of an email in descending order. -/
def currentEvent (ledger : List EmailWebhookEvent) (emailId : JsString) :
    Option EmailWebhookEvent :=
  ((ledger.filter fun e => e.emailId == emailId && isCurrentCandidate ledger e).insertionSort
    fun a b => b.before a).head?

/-- `delivered_events`: the first delivery of an email. -/
def firstDelivery (ledger : List EmailWebhookEvent) (emailId : JsString) : Option Time :=
  ((ledger.filter fun e => e.emailId == emailId && e.eventType == js "email.delivered").map
    EmailWebhookEvent.eventCreatedAt).min?

/-- The `CASE` over the event type. -/
def caseEventType (eventType : JsString) : Option EmailDeliveryState :=
  if eventType = js "email.delivered" then some .delivered
  else if eventType = js "email.delivery_delayed" then some .deliveryDelayed
  else if eventType = js "email.bounced" then some .bounced
  else if eventType = js "email.complained" then some .complained
  else if eventType = js "email.suppressed" then some .suppressed
  else if eventType = js "email.failed" then some .failed
  else none

/-- The two updates of a row of `email_messages`. -/
def backfillMessage (ledger : List EmailWebhookEvent) (m : EmailMessage Digest) :
    EmailMessage Digest :=
  if m.direction = .outbound then
    match m.resendEmailId.bind (currentEvent ledger) with
    | none => { m with deliveryState := m.deliveryState.or (some .unknown) }
    | some e =>
        { m with
          deliveryState := caseEventType e.eventType
          deliveryStateDetail := e.deliveryDetail
          deliveryStateUpdatedAt := some e.eventCreatedAt
          deliveredAt := firstDelivery ledger e.emailId }
  else m

theorem backfillMessage_id (ledger : List EmailWebhookEvent) (m : EmailMessage Digest) :
    (backfillMessage ledger m).id = m.id := by
  unfold backfillMessage
  split
  · split <;> rfl
  · rfl

def backfillDeliveryState (db : Database Digest) : Database Digest :=
  { db with
    messages := db.messages.update (fun _ => true) (backfillMessage db.webhookEvents.rows)
      (backfillMessage_id db.webhookEvents.rows) }

/-! ### The order of the ledger -/

theorem EmailWebhookEvent.before_refl (e : EmailWebhookEvent) : e.before e := by
  unfold before
  grind

theorem EmailWebhookEvent.before_trans {a b c : EmailWebhookEvent} (hab : a.before b)
    (hbc : b.before c) :
    a.before c := by
  unfold before at *
  grind

theorem EmailWebhookEvent.before_total (a b : EmailWebhookEvent) : a.before b ∨ b.before a := by
  unfold before
  grind

theorem EmailWebhookEvent.id_of_before {a b : EmailWebhookEvent} (hab : a.before b)
    (hba : b.before a) :
    a.id = b.id := by
  unfold before at *
  grind

instance : Std.Total EmailWebhookEvent.before := ⟨EmailWebhookEvent.before_total⟩

instance : IsTrans EmailWebhookEvent EmailWebhookEvent.before :=
  ⟨fun _ _ _ => EmailWebhookEvent.before_trans⟩

instance : Std.Total fun a b : EmailWebhookEvent => b.before a :=
  ⟨fun a b => EmailWebhookEvent.before_total b a⟩

instance : IsTrans EmailWebhookEvent fun a b => b.before a :=
  ⟨fun _ _ _ h h' => EmailWebhookEvent.before_trans h' h⟩

/-- In an ascending list nothing is after the last event. -/
theorem before_getLast? {l : List EmailWebhookEvent} (h : l.Pairwise EmailWebhookEvent.before)
    {last : EmailWebhookEvent} (hlast : l.getLast? = some last) :
    last ∈ l ∧ ∀ e ∈ l, e.before last := by
  obtain ⟨rest, rfl⟩ := List.getLast?_eq_some_iff.mp hlast
  refine ⟨by simp, fun e he => ?_⟩
  cases List.mem_append.mp he with
  | inl he => exact (List.pairwise_append.mp h).2.2 e he last (List.mem_singleton_self last)
  | inr he => exact List.mem_singleton.mp he ▸ EmailWebhookEvent.before_refl last

/-- In a descending list nothing is after the first event. -/
theorem before_head? {l : List EmailWebhookEvent} (h : l.Pairwise fun a b => b.before a)
    {first : EmailWebhookEvent} (hfirst : l.head? = some first) :
    first ∈ l ∧ ∀ e ∈ l, e.before first := by
  cases l with
  | nil => cases hfirst
  | cons a l =>
      rw [List.head?_cons, Option.some.injEq] at hfirst
      subst hfirst
      refine ⟨List.mem_cons_self, fun e he => ?_⟩
      cases List.mem_cons.mp he with
      | inl heq => exact heq ▸ EmailWebhookEvent.before_refl _
      | inr he => exact (List.pairwise_cons.mp h).1 e he

/-- The last of the ascending events is the first of the descending ones. -/
theorem getLast?_eq_head? {l₁ l₂ : List EmailWebhookEvent}
    (h₁ : l₁.Pairwise EmailWebhookEvent.before) (h₂ : l₂.Pairwise fun a b => b.before a)
    (hmem : ∀ e, e ∈ l₁ ↔ e ∈ l₂) (hids : ∀ e ∈ l₁, ∀ e' ∈ l₁, e.id = e'.id → e = e') :
    l₁.getLast? = l₂.head? := by
  cases hlast : l₁.getLast? with
  | none =>
      rw [List.getLast?_eq_none_iff] at hlast
      have hnil : l₂ = [] := List.eq_nil_iff_forall_not_mem.mpr fun e he => by
        have he := (hmem e).mpr he
        rw [hlast] at he
        cases he
      rw [hnil]
      rfl
  | some last =>
      obtain ⟨hlastMem, hlastBefore⟩ := before_getLast? h₁ hlast
      cases hfirst : l₂.head? with
      | none =>
          rw [List.head?_eq_none_iff] at hfirst
          have hmem := (hmem last).mp hlastMem
          rw [hfirst] at hmem
          cases hmem
      | some first =>
          obtain ⟨hfirstMem, hfirstBefore⟩ := before_head? h₂ hfirst
          have hfirst₁ := (hmem first).mpr hfirstMem
          have hid := EmailWebhookEvent.id_of_before (hfirstBefore last ((hmem last).mp hlastMem))
            (hlastBefore first hfirst₁)
          rw [hids last hlastMem first hfirst₁ hid]

/-! ### Event types -/

theorem deliveryStateByEventType_eq_caseEventType (eventType : JsString) :
    deliveryStateByEventType eventType = caseEventType eventType := rfl

theorem deliveryStateByEventType_of_notMem {eventType : JsString}
    (h : eventType ∉ deliveryEventTypes) :
    deliveryStateByEventType eventType = none := by
  simp only [deliveryEventTypes, List.mem_cons, List.not_mem_nil, or_false, not_or] at h
  obtain ⟨h₁, h₂, h₃, h₄, h₅, h₆⟩ := h
  unfold deliveryStateByEventType
  rw [if_neg h₁, if_neg h₂, if_neg h₃, if_neg h₄, if_neg h₅, if_neg h₆]

theorem contains_deliveryEventTypes (eventType : JsString) :
    deliveryEventTypes.contains eventType = (deliveryStateByEventType eventType).isSome := by
  by_cases h : eventType ∈ deliveryEventTypes
  · have hall : ∀ t ∈ deliveryEventTypes,
        deliveryEventTypes.contains t = (deliveryStateByEventType t).isSome := by decide +kernel
    exact hall eventType h
  · rw [deliveryStateByEventType_of_notMem h]
    simpa using h

theorem contains_terminalEventTypes (eventType : JsString) :
    terminalEventTypes.contains eventType =
      (deliveryStateByEventType eventType).any (· != .deliveryDelayed) := by
  by_cases h : eventType ∈ deliveryEventTypes
  · have hall : ∀ t ∈ deliveryEventTypes, terminalEventTypes.contains t =
        (deliveryStateByEventType t).any (· != .deliveryDelayed) := by decide +kernel
    exact hall eventType h
  · have hterminal : eventType ∉ terminalEventTypes := fun hmem =>
      h ((by decide +kernel : ∀ t ∈ terminalEventTypes, t ∈ deliveryEventTypes) eventType hmem)
    rw [deliveryStateByEventType_of_notMem h]
    simpa using hterminal

theorem deliveryStateByEventType_delayed (eventType : JsString) :
    deliveryStateByEventType eventType = some .deliveryDelayed ↔
      eventType = js "email.delivery_delayed" := by
  by_cases h : eventType ∈ deliveryEventTypes
  · have hall : ∀ t ∈ deliveryEventTypes, deliveryStateByEventType t = some .deliveryDelayed ↔
        t = js "email.delivery_delayed" := by decide +kernel
    exact hall eventType h
  · rw [deliveryStateByEventType_of_notMem h]
    constructor
    · intro hnone
      cases hnone
    · rintro rfl
      exact absurd (by decide +kernel) h

theorem deliveryStateByEventType_delivered (eventType : JsString) :
    deliveryStateByEventType eventType = some .delivered ↔ eventType = js "email.delivered" := by
  by_cases h : eventType ∈ deliveryEventTypes
  · have hall : ∀ t ∈ deliveryEventTypes, deliveryStateByEventType t = some .delivered ↔
        t = js "email.delivered" := by decide +kernel
    exact hall eventType h
  · rw [deliveryStateByEventType_of_notMem h]
    constructor
    · intro hnone
      cases hnone
    · rintro rfl
      exact absurd (by decide +kernel) h

/-! ### The reduction -/

/-- The event with the state that it reports. -/
def reported (e : EmailWebhookEvent) : Option (EmailDeliveryState × EmailWebhookEvent) :=
  (caseEventType e.eventType).map fun state => (state, e)

/-- A settled event: any but a delay. -/
def EmailWebhookEvent.terminal (e : EmailWebhookEvent) : Bool :=
  terminalEventTypes.contains e.eventType

/-- One step of the reduction. -/
theorem reduceDeliveryEvents_concat (l : List EmailWebhookEvent) (e : EmailWebhookEvent)
    (state : EmailDeliveryState) (hstate : deliveryStateByEventType e.eventType = some state) :
    reduceDeliveryEvents (l ++ [e]) =
      { current :=
          if state = .deliveryDelayed ∧
            (reduceDeliveryEvents l).current.any (fun c => c.1 != .deliveryDelayed) then
            (reduceDeliveryEvents l).current
          else some (state, e)
        deliveredAt :=
          if state = .delivered then some
            (earlierDate (reduceDeliveryEvents l).deliveredAt e.eventCreatedAt)
          else (reduceDeliveryEvents l).deliveredAt } := by
  unfold reduceDeliveryEvents
  rw [List.foldl_append, List.foldl_cons, List.foldl_nil, hstate]
  dsimp only
  split
  · rfl
  · rfl

theorem reported_settled (e : EmailWebhookEvent) :
    (reported e).any (fun c => c.1 != .deliveryDelayed) = e.terminal := by
  rw [EmailWebhookEvent.terminal, contains_terminalEventTypes, reported, Option.any_map]
  rfl

/-- The current event is the last settled one, or the last one of any kind. -/
theorem reduceDeliveryEvents_current {l : List EmailWebhookEvent}
    (h : ∀ e ∈ l, (deliveryStateByEventType e.eventType).isSome = true) :
    (reduceDeliveryEvents l).current =
      ((l.filter EmailWebhookEvent.terminal).getLast?.or l.getLast?).bind reported := by
  induction l using List.reverseRecOn with
  | nil => rfl
  | append_singleton l e ih =>
      have ih := ih fun e' he' => h e' (List.mem_append_left _ he')
      obtain ⟨state, hstate⟩ := Option.isSome_iff_exists.mp (h e (by simp))
      have hterminal : e.terminal = (state != .deliveryDelayed) := by
        rw [EmailWebhookEvent.terminal, contains_terminalEventTypes, hstate]
        rfl
      have hreported : reported e = some (state, e) := by
        rw [reported, ← deliveryStateByEventType_eq_caseEventType, hstate]
        rfl
      rw [reduceDeliveryEvents_concat l e state hstate, List.filter_append]
      dsimp only
      by_cases hdelayed : state = .deliveryDelayed
      · have hnone : [e].filter EmailWebhookEvent.terminal = [] := by simp [hterminal, hdelayed]
        rw [hnone, List.append_nil]
        cases hlast : (l.filter EmailWebhookEvent.terminal).getLast? with
        | none =>
            have hnil := List.getLast?_eq_none_iff.mp hlast
            have hcurrent : (reduceDeliveryEvents l).current.any
                (fun c => c.1 != .deliveryDelayed) = false := by
              rw [ih, hlast, Option.none_or]
              cases hend : l.getLast? with
              | none => rfl
              | some last =>
                  rw [Option.bind_some, reported_settled]
                  simpa using List.filter_eq_nil_iff.mp hnil last (List.mem_of_getLast? hend)
            rw [if_neg (by simp [hcurrent]), Option.none_or, List.getLast?_concat]
            exact hreported.symm
        | some last =>
            have hsettled : last.terminal = true :=
              (List.mem_filter.mp (List.mem_of_getLast? hlast)).2
            have hcurrent : (reduceDeliveryEvents l).current = reported last := by
              rw [ih, hlast]
              rfl
            rw [if_pos ⟨hdelayed, by rw [hcurrent, reported_settled, hsettled]⟩, hcurrent]
            rfl
      · have hone : [e].filter EmailWebhookEvent.terminal = [e] := by simp [hterminal, hdelayed]
        rw [hone, List.getLast?_concat, if_neg (fun hand => hdelayed hand.1)]
        exact hreported.symm

theorem min?_concat (times : List Time) (t : Time) :
    (times ++ [t]).min? = some (earlierDate times.min? t) := by
  cases times with
  | nil => rfl
  | cons a times =>
      rw [List.cons_append, List.min?_cons', List.min?_cons', List.foldl_append, List.foldl_cons,
        List.foldl_nil, earlierDate, min_def]

/-- The delivery time is the earliest of the deliveries. -/
theorem reduceDeliveryEvents_deliveredAt {l : List EmailWebhookEvent}
    (h : ∀ e ∈ l, (deliveryStateByEventType e.eventType).isSome = true) :
    (reduceDeliveryEvents l).deliveredAt =
      ((l.filter fun e => e.eventType == js "email.delivered").map
        EmailWebhookEvent.eventCreatedAt).min? := by
  induction l using List.reverseRecOn with
  | nil => rfl
  | append_singleton l e ih =>
      have ih := ih fun e' he' => h e' (List.mem_append_left _ he')
      obtain ⟨state, hstate⟩ := Option.isSome_iff_exists.mp (h e (by simp))
      rw [reduceDeliveryEvents_concat l e state hstate, List.filter_append, ih]
      dsimp only
      by_cases hdelivered : state = .delivered
      · have htype : e.eventType = js "email.delivered" :=
          (deliveryStateByEventType_delivered _).mp (hdelivered ▸ hstate)
        have hone : [e].filter (fun e => e.eventType == js "email.delivered") = [e] := by
          simp [htype]
        rw [if_pos hdelivered, hone, List.map_append, List.map_singleton, min?_concat]
      · have htype : e.eventType ≠ js "email.delivered" := by
          intro htype
          rw [(deliveryStateByEventType_delivered _).mpr htype, Option.some.injEq] at hstate
          exact hdelivered hstate.symm
        rw [if_neg hdelivered]
        simp [htype]

/-! ### The backfill refines the reduction -/

/-- The events of an email as a projection reads them. -/
def deliveryLedger (ledger : List EmailWebhookEvent) (emailId : JsString) :
    List EmailWebhookEvent :=
  (ledger.filter fun e => e.emailId == emailId &&
    (deliveryStateByEventType e.eventType).isSome).insertionSort
    EmailWebhookEvent.before

theorem mem_deliveryLedger {ledger : List EmailWebhookEvent} {emailId : JsString}
    {e : EmailWebhookEvent} :
    e ∈ deliveryLedger ledger emailId ↔
      e ∈ ledger ∧ e.emailId = emailId ∧ (deliveryStateByEventType e.eventType).isSome = true := by
  rw [deliveryLedger, (List.perm_insertionSort _ _).mem_iff, List.mem_filter,
    Bool.and_eq_true, beq_iff_eq]

theorem EmailWebhookEvent.terminal_iff {e : EmailWebhookEvent} : e.terminal = true ↔
    (deliveryStateByEventType e.eventType).isSome = true ∧
      e.eventType ≠ js "email.delivery_delayed" := by
  have hdelayed := deliveryStateByEventType_delayed e.eventType
  rw [terminal, contains_terminalEventTypes, ne_eq, ← hdelayed]
  cases deliveryStateByEventType e.eventType with
  | none => simp
  | some state => simp

/-- The candidates of the migration are the events among which the reduction takes the last. -/
theorem currentEvent_eq {ledger : List EmailWebhookEvent}
    (hids : ∀ e ∈ ledger, ∀ e' ∈ ledger, e.id = e'.id → e = e') (emailId : JsString) :
    ((deliveryLedger ledger emailId).filter EmailWebhookEvent.terminal).getLast?.or
        (deliveryLedger ledger emailId).getLast? = currentEvent ledger emailId := by
  have hsorted : (deliveryLedger ledger emailId).Pairwise EmailWebhookEvent.before :=
    List.pairwise_insertionSort _ _
  have hdescending := List.pairwise_insertionSort (fun a b : EmailWebhookEvent => b.before a)
    (ledger.filter fun e => e.emailId == emailId && isCurrentCandidate ledger e)
  have hcandidate : ∀ e,
      e ∈ (ledger.filter fun e => e.emailId == emailId && isCurrentCandidate ledger e).insertionSort
        (fun a b => b.before a) ↔ e ∈ deliveryLedger ledger emailId ∧
          (e.terminal = true ∨ undecided ledger emailId = true) := by
    intro e
    rw [(List.perm_insertionSort _ _).mem_iff, List.mem_filter, Bool.and_eq_true, beq_iff_eq,
      isCurrentCandidate,
      contains_deliveryEventTypes, mem_deliveryLedger, EmailWebhookEvent.terminal_iff,
        Bool.and_eq_true,
      Bool.or_eq_true, bne_iff_ne]
    constructor
    · rintro ⟨hmem, rfl, hstate, hor⟩
      refine ⟨⟨hmem, rfl, hstate⟩, ?_⟩
      cases hor with
      | inl hne => exact .inl ⟨hstate, hne⟩
      | inr hundecided => exact .inr hundecided
    · rintro ⟨⟨hmem, rfl, hstate⟩, hor⟩
      refine ⟨hmem, rfl, hstate, ?_⟩
      cases hor with
      | inl hterminal => exact .inl hterminal.2
      | inr hundecided => exact .inr hundecided
  have hlast : ∀ p : EmailWebhookEvent → Bool, ∀ e ∈ (deliveryLedger ledger emailId).filter p,
      ∀ e' ∈ (deliveryLedger ledger emailId).filter p, e.id = e'.id → e = e' := by
    intro p e he e' he'
    exact hids e (mem_deliveryLedger.mp (List.mem_of_mem_filter he)).1 e'
      (mem_deliveryLedger.mp (List.mem_of_mem_filter he')).1
  rw [currentEvent]
  cases hundecided : undecided ledger emailId with
  | true =>
      have hnil : (deliveryLedger ledger emailId).filter EmailWebhookEvent.terminal = [] := by
        rw [List.filter_eq_nil_iff]
        intro e he hterminal
        obtain ⟨hmem, rfl, -⟩ := mem_deliveryLedger.mp he
        rw [undecided, Bool.not_eq_true', List.any_eq_false] at hundecided
        refine hundecided e hmem ?_
        rw [beq_self_eq_true, Bool.true_and]
        exact hterminal
      rw [hnil, List.getLast?_nil, Option.none_or]
      refine getLast?_eq_head? hsorted hdescending (fun e => ?_) fun e he e' he' =>
        hids e (mem_deliveryLedger.mp he).1 e' (mem_deliveryLedger.mp he').1
      rw [hcandidate, hundecided]
      simp
  | false =>
      have hdecided := hundecided
      rw [undecided, Bool.not_eq_false', List.any_eq_true] at hdecided
      obtain ⟨t, ht, hterminal⟩ := hdecided
      rw [Bool.and_eq_true, beq_iff_eq] at hterminal
      have htmem : t ∈ (deliveryLedger ledger emailId).filter EmailWebhookEvent.terminal := by
        refine List.mem_filter.mpr ⟨mem_deliveryLedger.mpr ⟨ht, hterminal.1, ?_⟩, hterminal.2⟩
        exact (EmailWebhookEvent.terminal_iff.mp hterminal.2).1
      have hsome := List.getLast?_eq_some_getLast (List.ne_nil_of_mem htmem)
      rw [hsome, Option.some_or, ← hsome]
      refine getLast?_eq_head? (hsorted.filter _) hdescending (fun e => ?_) (hlast _)
      rw [hcandidate, List.mem_filter, hundecided]
      simp

theorem min?_eq_of_mem {times times' : List Time} (h : ∀ t, t ∈ times ↔ t ∈ times') :
    times.min? = times'.min? := by
  cases hmin : times.min? with
  | none =>
      rw [List.min?_eq_none_iff] at hmin
      have hnil : times' = [] := List.eq_nil_iff_forall_not_mem.mpr fun t ht => by
        have ht := (h t).mpr ht
        rw [hmin] at ht
        cases ht
      rw [hnil]
      rfl
  | some first =>
      obtain ⟨hmem, hle⟩ := List.min?_eq_some_iff.mp hmin
      exact (List.min?_eq_some_iff.mpr ⟨(h first).mp hmem, fun t ht => hle t ((h t).mpr ht)⟩).symm

theorem firstDelivery_eq (ledger : List EmailWebhookEvent) (emailId : JsString) :
    (((deliveryLedger ledger emailId).filter fun e => e.eventType == js "email.delivered").map
      EmailWebhookEvent.eventCreatedAt).min? = firstDelivery ledger emailId := by
  refine min?_eq_of_mem fun t => ?_
  simp only [List.mem_map, List.mem_filter, mem_deliveryLedger, Bool.and_eq_true, beq_iff_eq]
  constructor
  · rintro ⟨e, ⟨⟨hmem, hemail, -⟩, htype⟩, rfl⟩
    exact ⟨e, ⟨hmem, hemail, htype⟩, rfl⟩
  · rintro ⟨e, ⟨hmem, hemail, htype⟩, rfl⟩
    have hstate := (deliveryStateByEventType_delivered e.eventType).mpr htype
    exact ⟨e, ⟨⟨hmem, hemail, by rw [hstate]; rfl⟩, htype⟩, rfl⟩

/-- The reduction of the sorted ledger is what the migration selects. -/
theorem reduceDeliveryEvents_eq {ledger : List EmailWebhookEvent}
    (hids : ∀ e ∈ ledger, ∀ e' ∈ ledger, e.id = e'.id → e = e') (emailId : JsString) :
    reduceDeliveryEvents (deliveryLedger ledger emailId) =
      { current := (currentEvent ledger emailId).bind reported,
        deliveredAt := firstDelivery ledger emailId } := by
  have hstates : ∀ e ∈ deliveryLedger ledger emailId,
      (deliveryStateByEventType e.eventType).isSome = true :=
    fun e he => (mem_deliveryLedger.mp he).2.2
  rw [← currentEvent_eq hids, ← firstDelivery_eq, ← reduceDeliveryEvents_current hstates,
    ← reduceDeliveryEvents_deliveredAt hstates]

/-! ### A later projection -/

/-- The messages are left alone. -/
def MessagesKept (db db' : Database Digest) : Prop := db'.messages = db.messages

instance : Std.Refl (@MessagesKept Digest) := ⟨fun _ => rfl⟩

instance : IsTrans (Database Digest) MessagesKept := ⟨fun _ _ _ h h' => Eq.trans h' h⟩

theorem messagesKept_appendConversationEvent (config : Config) (input : ConversationEventInput) :
    Preserves MessagesKept (appendConversationEvent config input : Transaction Digest _) := by
  unfold appendConversationEvent
  split
  · refine .bind (fun db c db' h => ?_) fun c => .bind .get fun db => .bind (.ensure _ _) fun _ =>
      .bind (fun db id db' h => ?_) fun id => .bind (fun db u db' h => ?_) fun _ =>
        .bind (fun db u db' h => ?_) fun _ => .pure _
    · obtain ⟨-, rfl⟩ := updateConversation_eq_ok h
      rfl
    · obtain ⟨-, rfl⟩ := freshId_eq_ok.mp h
      rfl
    · obtain ⟨table, -, rfl⟩ := insertRow_eq_ok.mp h
      rfl
    · obtain ⟨table, -, rfl⟩ := insertRow_eq_ok.mp h
      rfl
  · exact .pure _

theorem messagesKept_markConversationTerminated (id : Uuid) (changedAt : Time) :
    Preserves MessagesKept (markConversationTerminated id changedAt : Transaction Digest _) := by
  refine .bind (fun db n db' h => ?_) fun _ => .pure _
  rw [updateConversations_eq_ok h]
  rfl

theorem messagesKept_reportDelivery (config : Config) (before : EmailMessage Digest) (id : Uuid)
    (state : EmailDeliveryState) (time : Time) :
    Preserves MessagesKept (reportDelivery config before id state time) := by
  refine .bind .get fun db => ?_
  have hterminate : Preserves MessagesKept (do
      let stateChanged ← markConversationTerminated id time
      if stateChanged then
        let _ ← appendConversationEvent config
          { conversationId := id
            type := .stateChanged
            occurredAt := time
            actor := .system
            cause := js "unreachable_delivery"
            state := some ((db.conversations.get? id).map EmailConversation.state, .terminated) }
        pure ()
      else pure () : Transaction Digest Unit) :=
    .bind (messagesKept_markConversationTerminated _ _) fun _ =>
      .ite (.bind (messagesKept_appendConversationEvent _ _) fun _ => .pure _) (.pure _)
  exact .ite (.bind (messagesKept_appendConversationEvent _ _) fun _ => .ite hterminate (.pure _))
    (.ite hterminate (.pure _))

/-- What a projection makes of the messages. -/
theorem project_messages {config : Config} {emailId : JsString} {db db' : Database Digest}
    {u : Unit} (h : projectOutboundDeliveryStateForResendEmail config emailId db = .ok (u, db')) :
    db'.messages =
      match (reduceDeliveryEvents (deliveryLedger db.webhookEvents.rows emailId)).current with
      | none => db.messages
      | some (state, event) =>
          db.messages.update (fun m => m.direction == .outbound && m.resendEmailId == some emailId)
            (fun m => { m with
              deliveryState := some state
              deliveryStateDetail := event.deliveryDetail
              deliveryStateUpdatedAt := some event.eventCreatedAt
              deliveredAt :=
                (reduceDeliveryEvents (deliveryLedger db.webhookEvents.rows emailId)).deliveredAt })
            fun _ => rfl := by
  obtain ⟨_, _, hget, h⟩ := bind_eq_ok.mp h
  obtain ⟨rfl, rfl⟩ := get_eq_ok.mp hget
  have hevents : db.webhookEvents.selectSorted
      (fun e => e.emailId == emailId && (deliveryStateByEventType e.eventType).isSome)
        EmailWebhookEvent.before = deliveryLedger db.webhookEvents.rows emailId := rfl
  dsimp only at h
  rw [hevents] at h
  cases hcurrent :
    (reduceDeliveryEvents (deliveryLedger db.webhookEvents.rows emailId)).current with
  | none =>
      rw [hcurrent] at h
      obtain ⟨-, rfl⟩ := pure_eq_ok.mp h
      rfl
  | some current =>
      rw [hcurrent] at h
      dsimp only at h
      obtain ⟨n, db₁, hupdate, h⟩ := bind_eq_ok.mp h
      obtain ⟨-, rfl⟩ := updateMessages_eq_ok.mp hupdate
      cases hbefore : db.messages.rows.find? (fun m : EmailMessage Digest =>
          m.direction == .outbound && m.resendEmailId == some emailId) with
      | none =>
          rw [hbefore] at h
          obtain ⟨-, rfl⟩ := pure_eq_ok.mp h
          rfl
      | some before =>
          rw [hbefore] at h
          dsimp only at h
          cases hconversation : before.conversationId with
          | none =>
              rw [hconversation] at h
              obtain ⟨-, rfl⟩ := pure_eq_ok.mp h
              rfl
          | some id =>
              rw [hconversation] at h
              exact messagesKept_reportDelivery _ _ _ _ _ h

/-- A message as the migration leaves it has what a projection of its email writes. -/
theorem backfillMessage_eq {ledger : List EmailWebhookEvent} {m : EmailMessage Digest}
    (hout : m.direction = .outbound) {emailId : JsString} (hemail : m.resendEmailId = some emailId)
    {e : EmailWebhookEvent} (he : currentEvent ledger emailId = some e) :
    backfillMessage ledger m =
      { m with
        deliveryState := caseEventType e.eventType
        deliveryStateDetail := e.deliveryDetail
        deliveryStateUpdatedAt := some e.eventCreatedAt
        deliveredAt := firstDelivery ledger emailId } := by
  have hid : e.emailId = emailId := by
    have hmem := List.mem_of_mem_head? he
    rw [(List.perm_insertionSort _ _).mem_iff, List.mem_filter, Bool.and_eq_true,
      beq_iff_eq] at hmem
    exact hmem.2.1
  unfold backfillMessage
  rw [if_pos hout, hemail, Option.bind_some, he]
  dsimp only
  rw [hid]

/-- The columns that tell the rows of an email are not the backfill's. -/
theorem backfillMessage_frame (ledger : List EmailWebhookEvent) (m : EmailMessage Digest) :
    (backfillMessage ledger m).direction = m.direction ∧
      (backfillMessage ledger m).resendEmailId = m.resendEmailId := by
  unfold backfillMessage
  split
  · split
    · exact ⟨rfl, rfl⟩
    · exact ⟨rfl, rfl⟩
  · exact ⟨rfl, rfl⟩

/-- A projection after the backfill leaves the messages as they are. -/
theorem project_backfillDeliveryState {config : Config} {emailId : JsString}
    {db db' : Database Digest}
    (hids : ∀ e ∈ db.webhookEvents, ∀ e' ∈ db.webhookEvents, e.id = e'.id → e = e')
    (h : projectOutboundDeliveryStateForResendEmail config emailId (backfillDeliveryState db) =
      .ok ((), db')) :
    db'.messages = (backfillDeliveryState db).messages := by
  have hmessages := project_messages h
  have hreduced :
      reduceDeliveryEvents (deliveryLedger (backfillDeliveryState db).webhookEvents.rows emailId) =
      { current := (currentEvent db.webhookEvents.rows emailId).bind reported
        deliveredAt := firstDelivery db.webhookEvents.rows emailId } :=
    reduceDeliveryEvents_eq hids emailId
  rw [hreduced] at hmessages
  cases hcurrent : currentEvent db.webhookEvents.rows emailId with
  | none =>
      rw [hcurrent] at hmessages
      exact hmessages
  | some e =>
      rw [hcurrent, Option.bind_some] at hmessages
      cases hreported : reported e with
      | none =>
          rw [hreported] at hmessages
          exact hmessages
      | some current =>
          rw [hreported] at hmessages
          obtain ⟨state, hstate, rfl⟩ := Option.map_eq_some_iff.mp hreported
          rw [hmessages]
          apply Table.update_eq_self
          intro m hm hout
          rw [Bool.and_eq_true, beq_iff_eq, beq_iff_eq] at hout
          rw [backfillDeliveryState, Table.mem_update] at hm
          obtain ⟨m₀, -, rfl⟩ := hm
          rw [if_pos rfl] at hout ⊢
          obtain ⟨hdirection, hemail⟩ := backfillMessage_frame db.webhookEvents.rows m₀
          rw [backfillMessage_eq (hdirection ▸ hout.1) (hemail ▸ hout.2) hcurrent, hstate]

/-- The sorted ledger reduces to what the migration selects, and a projection after the migration
changes no message. -/
theorem backfill_refined (Digest : Type) :
    (∀ (ledger : List EmailWebhookEvent) (emailId : JsString),
      (∀ e ∈ ledger, ∀ e' ∈ ledger, e.id = e'.id → e = e') →
        reduceDeliveryEvents (deliveryLedger ledger emailId) =
          { current := (currentEvent ledger emailId).bind reported
            deliveredAt := firstDelivery ledger emailId }) ∧
    ∀ (config : Config) (emailId : JsString) (db db' : Database Digest),
      (∀ e ∈ db.webhookEvents, ∀ e' ∈ db.webhookEvents, e.id = e'.id → e = e') →
      projectOutboundDeliveryStateForResendEmail config emailId (backfillDeliveryState db) =
        .ok ((), db') → db'.messages = (backfillDeliveryState db).messages :=
  ⟨fun _ emailId hids => reduceDeliveryEvents_eq hids emailId, fun _ _ _ _ hids h =>
    project_backfillDeliveryState hids h⟩

namespace Reference

/-- An event of the email `e`. -/
def deliveryEvent (id : Uuid) (eventType : JsString) (time : Time) : EmailWebhookEvent where
  id := id
  svixId := uuidText id
  eventType := eventType
  webhookReceivedAt := 9
  eventCreatedAt := time
  emailId := js "e"
  deliveryDetail := none

/-- A delivery and a delay that is reported after it. -/
def staleDelay : List EmailWebhookEvent :=
  [deliveryEvent 0 (js "email.delivery_delayed") 5, deliveryEvent 1 (js "email.delivered") 3]

def delayedMessage : EmailMessage Unit where
  id := 2
  kind := .direct
  direction := .outbound
  state := .accepted
  resendEmailId := some (js "e")
  fromAddress := js "a@s.co"
  toAddress := js "p@q.co"
  subject := js "s"
  emailCreatedAt := 0
  createdAt := 0

/-- A database with a sent message and the ledger of its email. -/
def sentWithDelay : Database Unit :=
  { (Database.initial : Database Unit) with
    nextId := 3
    messages := ⟨[delayedMessage], by decide⟩
    webhookEvents := ⟨staleDelay, by decide +kernel⟩ }

end Reference

theorem backfill_refined_reference :
    (reduceDeliveryEvents (deliveryLedger Reference.staleDelay (js "e"))).deliveredAt = some 3 ∧
      ∃ db', projectOutboundDeliveryStateForResendEmail .reference (js "e")
          (backfillDeliveryState Reference.sentWithDelay) = .ok ((), db') ∧
        db'.messages = (backfillDeliveryState Reference.sentWithDelay).messages := by
  have hids : ∀ e ∈ Reference.staleDelay, ∀ e' ∈ Reference.staleDelay, e.id = e'.id → e = e' := by
    decide +kernel
  refine ⟨?_, ?_⟩
  · rw [(backfill_refined Unit).1 _ _ hids]
    decide +kernel
  · have hok : (projectOutboundDeliveryStateForResendEmail .reference (js "e")
        (backfillDeliveryState Reference.sentWithDelay)).isOk = true := by decide +kernel
    cases hx : projectOutboundDeliveryStateForResendEmail .reference (js "e")
        (backfillDeliveryState Reference.sentWithDelay) with
    | error e =>
        rw [hx] at hok
        cases hok
    | ok r =>
        obtain ⟨_, db'⟩ := r
        exact ⟨db', rfl, (backfill_refined Unit).2 _ _ Reference.sentWithDelay db' hids hx⟩

end ResendConversation
