import ResendConversation.SendThreads

/-! # Operator requests as events

A topic assignment, a manual change of the state and a deletion are one event each. -/

namespace ResendConversation

open Foundation Tx

variable {Digest : Type} {lower : JsString → JsString}

/-- Only the operator's requests cause these events. -/
def ThreadEvent.IsAssignment : ThreadEvent → Prop
  | .drawn _ | .assigned _ _ => True
  | _ => False

def ThreadEvent.IsOverride : ThreadEvent → Prop
  | .drawn _ | .overridden _ _ => True
  | _ => False

/-- A deletion of the conversation. -/
def ThreadEvent.IsDeletion (c : Uuid) : ThreadEvent → Prop
  | .drawn _ => True
  | .deleted d => d = c
  | _ => False

/-- Nothing but identifiers is drawn. -/
theorem Still.explained {db db' : Database Digest} {P : ThreadEvent → Prop} (h : Still db db')
    (hP : P (.drawn db'.nextId)) : Woven lower P db db' :=
  .single (e := .drawn db'.nextId) hP h.nextId_le h.threads

theorem assignTopic_threads (config : Config) (now : Time) (id : Uuid) (topic : JsString × JsString)
    (title : JsString) : Preserves (Lawful lower ThreadEvent.IsAssignment)
      (assignTopic config now id topic title : Transaction Digest _) := by
  intro db b db' h
  obtain ⟨_, _, hget, h⟩ := bind_eq_ok.mp h
  obtain ⟨rfl, rfl⟩ := get_eq_ok.mp hget
  cases hfound : db.conversations.get? id with
  | none =>
      rw [hfound] at h
      obtain ⟨-, rfl⟩ := pure_eq_ok.mp h
      exact Std.Refl.refl db
  | some current =>
      rw [hfound] at h
      dsimp only at h
      split at h
      · obtain ⟨-, rfl⟩ := pure_eq_ok.mp h
        exact Std.Refl.refl db
      next hfree =>
        simp only [bind_eq_ok, pure_eq_ok] at h
        obtain ⟨_, db₁, h₁, _, db₂, h₂, -, rfl⟩ := h
        have hkeeps : Keeps db db₁ := keeps_updateConversation (by exact fun _ => le_rfl) h₁
        obtain ⟨-, heq₁⟩ := updateConversation_eq_ok h₁
        simp only [not_or, Option.not_isSome_iff_eq_none] at hfree
        have ht₁ : db₁.threads = db.threads.apply (.assigned id topic) := by
          rw [heq₁]
          exact threads_updateConversation fun _ => rfl
        have hassigned : Lawful lower ThreadEvent.IsAssignment db db₁ :=
          ⟨.single (e := .assigned id topic) trivial
            ⟨current.view, by simp [Database.threads, hfound], hfree.1, hfree.2.1, hfree.2.2⟩
              ht₁, hkeeps⟩
        exact hassigned.trans ⟨(still_appendConversationEvent _ _ h₂).explained trivial,
          keeps_appendConversationEvent _ _ h₂⟩

theorem setConversationState_threads (config : Config) (now : Time) (id : Uuid)
    (state : ConversationState) : Preserves (Lawful lower ThreadEvent.IsOverride)
      (setConversationState config now id state : Transaction Digest _) := by
  intro db b db' h
  obtain ⟨_, _, hget, h⟩ := bind_eq_ok.mp h
  obtain ⟨rfl, rfl⟩ := get_eq_ok.mp hget
  cases hfound : db.conversations.get? id with
  | none =>
      rw [hfound] at h
      obtain ⟨-, rfl⟩ := pure_eq_ok.mp h
      exact Std.Refl.refl db
  | some current =>
      rw [hfound] at h
      obtain ⟨_, db₁, h₁, h⟩ := bind_eq_ok.mp h
      have hkeeps : Keeps db db₁ := keeps_updateConversation (by exact fun _ => le_rfl) h₁
      obtain ⟨-, heq₁⟩ := updateConversation_eq_ok h₁
      have ht₁ : db₁.threads = db.threads.apply (.overridden id state) := by
        rw [heq₁]
        exact threads_updateConversation fun _ => rfl
      have hset : Lawful lower ThreadEvent.IsOverride db db₁ :=
        ⟨.single (e := .overridden id state) trivial
          (by simp [Threads.Enabled, Database.threads, hfound]) ht₁, hkeeps⟩
      have hrest : Lawful lower ThreadEvent.IsOverride db₁ db' := by
        split at h
        · obtain ⟨_, db₂, h₂, h⟩ := bind_eq_ok.mp h
          obtain ⟨-, rfl⟩ := pure_eq_ok.mp h
          exact ⟨(still_appendConversationEvent _ _ h₂).explained trivial,
            keeps_appendConversationEvent _ _ h₂⟩
        · obtain ⟨-, rfl⟩ := pure_eq_ok.mp h
          exact Std.Refl.refl _
      exact hset.trans hrest

/-! ### Deletion -/

/-- The messages that a deletion of a conversation removes. -/
theorem mem_goneIds {db : Database Digest} {c p : Uuid} :
    p ∈ (db.messages.select fun m => m.conversationId.any [c].contains).map EmailMessage.id ↔
      db.threads.inConversation c p = true := by
  simp only [List.mem_map, Table.mem_select, Threads.inConversation, Database.threads]
  constructor
  · rintro ⟨m, ⟨hm, hgone⟩, rfl⟩
    rw [Table.mem_iff_get?.mp hm]
    cases hc : m.conversationId with
    | none => simp [hc] at hgone
    | some d => simpa [EmailMessage.threadView, hc] using hgone
  · intro h
    cases hp : db.messages.get? p with
    | none => simp [hp] at h
    | some m =>
        refine ⟨m, ⟨Table.mem_of_get? hp, ?_⟩, Table.key_of_get? hp⟩
        cases hc : m.conversationId with
        | none => simp [hp, EmailMessage.threadView, hc] at h
        | some d => simpa [hp, EmailMessage.threadView, hc] using h

theorem deleteConversation_row_threads (now : Time) (c : Uuid) (db : Database Digest) :
    db.nextId ≤ (deleteConversations now [c] db).nextId ∧ (deleteConversations now [c] db).threads =
      { db.threads.apply (.deleted c) with nextId := (deleteConversations now [c] db).nextId } := by
  set gone := fun m : EmailMessage Digest => m.conversationId.any [c].contains with hgone
  set goneIds := (db.messages.select gone).map EmailMessage.id with hgoneIds
  obtain ⟨n, tombstones, hn, heq, -⟩ := deleteAttachments_eq now
    (fun a => a.messageId.any goneIds.contains) db
  have hnext : (deleteConversations now [c] db).nextId = n := by
    simp only [deleteConversations, ← hgone, ← hgoneIds, heq]
  have hmem : ∀ p, goneIds.contains p = db.threads.inConversation c p := by
    intro p
    rw [Bool.eq_iff_iff, List.contains_iff_mem]
    exact mem_goneIds
  refine ⟨hnext ▸ hn, Threads.ext rfl (funext fun k => ?_) (funext fun k => ?_) ?_⟩
  · have hk : (deleteConversations now [c] db).threads.messages k =
        (((db.messages.get? k).filter fun m => !gone m).map fun m =>
          if m.parentMessageId.any goneIds.contains then { m with parentMessageId := none }
            else m).map
            EmailMessage.threadView := by
      simp only [Database.threads, deleteConversations, ← hgone, ← hgoneIds, heq, Table.get?_update,
        Table.get?_delete]
    rw [hk]
    simp only [Threads.apply]
    cases hm : db.messages.get? k with
    | none => simp [Threads.inConversation, Database.threads, hm]
    | some m =>
        have hview := EmailMessage.threadView_of_get? hm
        have hin : db.threads.inConversation c k = gone m := by
          simp only [Threads.inConversation, hview, hgone, EmailMessage.threadView]
          rw [Bool.eq_iff_iff]
          cases hc : m.conversationId <;> simp
        rw [hin, hview]
        cases hg : gone m with
        | true => simp [hg]
        | false =>
            simp only [hg, Option.filter_some, Bool.not_false, if_true, Option.map_some,
              Bool.false_eq_true, if_false, Option.some.injEq]
            cases hp : m.parentMessageId with
            | none => simp [hp, EmailMessage.threadView]
            | some p =>
                simp only [Option.any_some, hmem]
                by_cases hgp : db.threads.inConversation c p = true <;>
                  simp [hgp, hp, EmailMessage.threadView, Option.filter]
  · have hk : (deleteConversations now [c] db).conversations.get? k =
        (db.conversations.get? k).filter fun row => !List.contains [c] row.id := by
      simp only [deleteConversations, ← hgone, ← hgoneIds, heq, Table.get?_delete]
    simp only [Database.threads, Threads.apply, hk]
    cases hrow : db.conversations.get? k with
    | none => simp
    | some row =>
        have hid := Table.key_of_get? hrow
        by_cases hkc : k = c <;> simp [hid, hkc]
  · have ha : ∀ a, a ∈ (deleteConversations now [c] db).routingAliases ↔
        a ∈ db.routingAliases ∧ [c].contains a.conversationId = false := by
      intro a
      simp only [deleteConversations, ← hgone, ← hgoneIds, heq, Table.mem_delete]
    ext ⟨d, x⟩
    simp only [Database.threads, Threads.apply, Set.mem_ofPred_eq, ha]
    constructor
    · rintro ⟨row, ⟨hrow, hout⟩, hx⟩
      have hd : row.conversationId = d := congrArg Prod.fst hx
      exact ⟨⟨row, hrow, hx⟩, by simpa [hd] using hout⟩
    · rintro ⟨⟨row, hrow, hx⟩, hout⟩
      have hd : row.conversationId = d := congrArg Prod.fst hx
      exact ⟨row, ⟨hrow, by simpa [hd] using hout⟩, hx⟩

/-- The event log is not part of the threads. -/
theorem keeps_deleteConversationEvents (id : Uuid) (kept : Option Uuid) :
    Preserves Keeps (modify (deleteConversationEvents id kept) : Transaction Digest _) :=
  .modify fun _ hs =>
    { hs with
      eventId_lt := fun e he => hs.eventId_lt e (Table.mem_delete.mp he).1
      deliveryId_lt := fun d hd => hs.deliveryId_lt d (Table.mem_delete.mp hd).1
      logged := fun e he => hs.logged e (Table.mem_delete.mp he).1 }

theorem deleteConversation_threads (config : Config) (now : Time) (id : Uuid) :
    Preserves (Lawful lower (ThreadEvent.IsDeletion id))
      (deleteConversation config now id : Transaction Digest _) := by
  intro db b db' h
  obtain ⟨_, _, hget, h⟩ := bind_eq_ok.mp h
  obtain ⟨rfl, rfl⟩ := get_eq_ok.mp hget
  cases hfound : db.conversations.get? id with
  | none =>
      rw [hfound] at h
      obtain ⟨-, rfl⟩ := pure_eq_ok.mp h
      exact Std.Refl.refl db
  | some current =>
      rw [hfound] at h
      simp only [bind_eq_ok, pure_eq_ok] at h
      obtain ⟨event, db₁, h₁, _, db₂, h₂, _, db₃, h₃, -, rfl⟩ := h
      have hstill := still_appendConversationEvent _ _ h₁
      have hkeeps : Keeps db db₃ := fun hs => keeps_deleteConversations _ _ h₃
        (keeps_deleteConversationEvents _ _ h₂ (keeps_appendConversationEvent _ _ h₁ hs))
      have ht₂ : db₂.threads = db₁.threads := by
        rw [← modify_eq_ok.mp h₂]
        rfl
      obtain ⟨hn₃, ht₃⟩ := deleteConversation_row_threads now id db₂
      rw [modify_eq_ok.mp h₃] at hn₃ ht₃
      refine ⟨?_, hkeeps⟩
      have hdeleted : db₁.threads.Enabled lower (.deleted id) := by
        change (db₁.threads.conversations id).isSome
        rw [hstill.threads]
        simp [Database.threads, hfound]
      have hexplained : (threading lower).Explains (ThreadEvent.IsDeletion id) db₁.threads
          db₃.threads := by
        refine .trans (Threads.explains (e := .deleted id) rfl hdeleted) ?_
        rw [ht₃, ht₂]
        exact Threads.explains (P := ThreadEvent.IsDeletion id) (e := .drawn db₃.nextId) trivial
          ((congrArg Threads.nextId ht₂).ge.trans hn₃)
      exact (hstill.explained (P := ThreadEvent.IsDeletion id) trivial).trans hexplained

end ResendConversation
