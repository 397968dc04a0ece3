import ResendConversation.Projection
import ResendConversation.Weaving

/-! # Merges as events

A merge of unassigned conversations, as `preserveMergedConversationState` and
`absorbConversations` carry it out, is one `merged` event: the target takes over the aliases,
the identity and the messages of its sources, which are deleted when no message is left in
them. -/

namespace ResendConversation

open Foundation Tx

variable {Digest : Type} {lower : JsString → JsString}

theorem still_recordConversationMerges (config : Config) (target : Uuid) (sources : List Uuid)
    (occurredAt : Time) :
    Preserves Still
    (recordConversationMerges config target sources occurredAt : Transaction Digest _) :=
  .bind (.forM fun _ _ => .bind (still_appendConversationEvent _ _) fun _ => .pure _) fun _ =>
    .bind (still_appendConversationEvent _ _) fun _ => .pure _

/-! ### Lists of sources -/

/-- The rows of a query with their conversations as they are stored. -/
def Database.Holds (db : Database Digest) (related : List (ThreadedMessage Digest)) : Prop :=
  ∀ t ∈ related, db.conversations.get? t.conversation.id = some t.conversation

/-- The source rows that a merge of unassigned conversations is given. -/
def sourceRows (target : Uuid) (related : List (ThreadedMessage Digest)) : List EmailConversation :=
  unique (((related.map ThreadedMessage.conversation).filter fun c =>
    (unassignedConversations target related).contains c.id).filter fun s => s.id != target)

/-- Its source rows are those of the unassigned conversations, in the same order. -/
theorem sourceRows_ids {db : Database Digest} {target : Uuid}
    {related : List (ThreadedMessage Digest)} (h : db.Holds related) :
    (sourceRows target related).map EmailConversation.id =
      unassignedConversations target related := by
  have hsame : ∀ t ∈ related, ∀ u ∈ related, t.conversation.id = u.conversation.id →
      t.conversation = u.conversation := by
    intro t ht u hu heq
    exact Option.some.inj ((h t ht).symm.trans ((congrArg _ heq).trans (h u hu)))
  have hfilter : ((related.map ThreadedMessage.conversation).filter fun c =>
      (unassignedConversations target related).contains c.id).filter (fun s => s.id != target) =
      (related.filter fun t => t.conversation.id != target && t.conversation.topicType.isNone).map
        ThreadedMessage.conversation := by
    rw [List.filter_filter, List.filter_map]
    congr 1
    refine List.filter_congr fun t ht => ?_
    simp only [Function.comp]
    rw [Bool.eq_iff_iff]
    simp only [Bool.and_eq_true, bne_iff_ne, ne_eq, List.contains_iff_mem, unassignedConversations,
      mem_unique, List.mem_map, List.mem_filter]
    constructor
    · rintro ⟨hne, u, ⟨hu, -, hnone⟩, heq⟩
      exact ⟨hne, hsame u hu t ht heq ▸ hnone⟩
    · rintro ⟨hne, hnone⟩
      exact ⟨hne, t, ⟨ht, hne, hnone⟩, rfl⟩
  rw [sourceRows, hfilter, ← unique_map, List.map_map, unassignedConversations]
  · rfl
  · intro c hc d hd heq
    obtain ⟨t, ht, rfl⟩ := List.mem_map.mp hc
    obtain ⟨u, hu, rfl⟩ := List.mem_map.mp hd
    exact hsame t (List.mem_filter.mp ht).1 u (List.mem_filter.mp hu).1 heq

theorem mem_sourceRows {target : Uuid} {related : List (ThreadedMessage Digest)}
    {c : EmailConversation} (h : c ∈ sourceRows target related) :
    ∃ t ∈ related, t.conversation = c := by
  simp only [sourceRows, mem_unique, List.mem_filter, List.mem_map] at h
  exact h.1.1

/-! ### The survivor -/

/-- The step of the fold in `mergeConversationState` never forgets a time. -/
theorem earliest_isSome (rows : List EmailConversation) (o : Option Time)
    (h : rows ≠ [] ∨ o.isSome) :
    (rows.foldl (fun (earliest : Option Time) row =>
      match earliest with
      | some t => if t ≤ row.stateChangedAt then some t else some row.stateChangedAt
      | none => some row.stateChangedAt) o).isSome := by
  induction rows generalizing o with
  | nil =>
      cases h with
      | inl h => exact absurd rfl h
      | inr h => exact h
  | cons row rows ih =>
      rw [List.foldl_cons]
      refine ih _ (.inr ?_)
      cases o with
      | none => rfl
      | some t =>
          dsimp only
          split <;> rfl

theorem mergeConversationState_state (rows : List EmailConversation) :
    (mergeConversationState rows).map Prod.fst =
      mergePrecedence.find? fun candidate => rows.any fun row => row.state == candidate := by
  unfold mergeConversationState
  cases hw : mergePrecedence.find? fun candidate => rows.any fun row => row.state == candidate with
  | none => rfl
  | some winner =>
      have hany := List.find?_some hw
      obtain ⟨row, hrow, hstate⟩ := List.any_eq_true.mp hany
      have hne : rows.filter (fun row => row.state == winner) ≠ [] :=
        List.ne_nil_of_mem (List.mem_filter.mpr ⟨hrow, hstate⟩)
      obtain ⟨t, ht⟩ := Option.isSome_iff_exists.mp (earliest_isSome _ none (.inl hne))
      dsimp only
      rw [Option.map_map]
      exact congrArg (Option.map (Prod.fst ∘ fun t => (winner, t))) ht

theorem view_mergedConversation (sources : List EmailConversation) (target : EmailConversation) :
    (mergedConversation sources target target).view =
      target.view.merge (sources.map EmailConversation.view) := by
  have hstate := mergeConversationState_state (target :: sources)
  have hany : ∀ candidate, ((target :: sources).any fun row => row.state == candidate) =
      (target.view :: sources.map EmailConversation.view).any fun row =>
        row.state == candidate := by
    intro candidate
    rw [← List.map_cons (f := EmailConversation.view), List.any_map]
    rfl
  simp only [hany] at hstate
  have hpromoted : (sources.map EmailConversation.view).find? (fun s => s.apiVersion == some .v2 &&
      s.replyToBaseAddress.isSome) = (sources.find? fun s => s.apiVersion == some .v2 &&
        s.replyToBaseAddress.isSome).map EmailConversation.view := by
    rw [List.find?_map]
    rfl
  have hselected : (sources.map EmailConversation.view).find?
      (fun s => s.replyToBaseAddress.isSome) =
      (sources.find? fun s => s.replyToBaseAddress.isSome).map EmailConversation.view := by
    rw [List.find?_map]
    rfl
  have hversion : (sources.map EmailConversation.view).findSome? ConversationView.apiVersion =
      sources.findSome? EmailConversation.apiVersion := by
    rw [List.findSome?_map]
    rfl
  simp only [mergedConversation, ConversationView.merge, hpromoted, hselected, hversion, ← hstate]
  cases sources.find? fun s => s.apiVersion == some .v2 && s.replyToBaseAddress.isSome with
  | none => cases sources.find? fun s => s.replyToBaseAddress.isSome <;> rfl
  | some p => rfl

/-! ### Aliases -/

/-- The aliases of the sources now belong to the target. -/
def movedAliases (A : Set (Uuid × RoutingCandidate)) (target : Uuid) (sources : List Uuid) :
    Set (Uuid × RoutingCandidate) :=
  {a | (a ∈ A ∧ a.1 ∉ sources) ∨ (a.1 = target ∧ ∃ s ∈ sources, (s, a.2) ∈ A)}

/-- Every source with a fixed base leaves an alias, unless its tag already is one. -/
def addedAliases (A : Set (Uuid × RoutingCandidate)) (target : Uuid)
    (sources : List ConversationView) :
    Set (Uuid × RoutingCandidate) :=
  {a | a ∈ A ∨ (a.1 = target ∧ (∀ c, (c, a.2) ∉ A) ∧ ∃ s ∈ sources, s.candidate = some a.2)}

theorem aliases_moved {db : Database Digest} {target : Uuid} {sources : List Uuid} :
    (Database.threads { db with
      routingAliases :=
        db.routingAliases.update (fun a => sources.contains a.conversationId) fun a =>
        { a with conversationId := target } }).aliases = movedAliases db.threads.aliases target
          sources := by
  ext ⟨c, x⟩
  simp only [Database.threads, movedAliases, Set.mem_ofPred_eq, Prod.mk.injEq]
  constructor
  · rintro ⟨row', hrow', rfl, rfl⟩
    rw [Table.mem_update] at hrow'
    obtain ⟨row, hrow, rfl⟩ := hrow'
    split
    next h => exact .inr ⟨rfl, row.conversationId, by simpa using h, row, hrow, rfl, rfl⟩
    next h => exact .inl ⟨⟨row, hrow, rfl, rfl⟩, by simpa using h⟩
  · rintro (⟨⟨row, hrow, rfl, rfl⟩, h⟩ | ⟨rfl, s, hs, row, hrow, rfl, rfl⟩)
    · refine ⟨row, Table.mem_update.mpr ⟨row, hrow, if_neg (by simpa using h)⟩, rfl, rfl⟩
    · exact ⟨_, Table.mem_update.mpr ⟨row, hrow, if_pos (by simpa using hs)⟩, rfl, rfl⟩

/-- What the creation of aliases leaves alone. -/
structure AliasesAdded (db db' : Database Digest) (target : Uuid)
    (sources : List ConversationView) :
    Prop where
  table : ∃ n aliases, db.nextId ≤ n ∧ db' = { db with nextId := n, routingAliases := aliases }
  added : db'.threads.aliases = addedAliases db.threads.aliases target sources

theorem createRoutingAlias_added {target : Uuid} {source : EmailConversation}
    {db db' : Database Digest} {u : Unit} (h : createRoutingAlias target source db = .ok (u, db')) :
    AliasesAdded db db' target [source.view] := by
  obtain ⟨_, _, hget, h⟩ := bind_eq_ok.mp h
  obtain ⟨rfl, rfl⟩ := get_eq_ok.mp hget
  cases hbase : source.replyToBaseAddress with
  | none =>
      simp only [hbase, pure_eq_ok] at h
      obtain ⟨-, rfl⟩ := h
      refine ⟨⟨_, _, le_rfl, rfl⟩, ?_⟩
      ext a
      simp [addedAliases, ConversationView.candidate, EmailConversation.view, hbase]
  | some base =>
      have hcandidate : source.view.candidate = some ⟨source.routingToken, base⟩ := by
        simp [ConversationView.candidate, EmailConversation.view, hbase]
      simp only [hbase] at h
      split at h
      next htaken =>
        obtain ⟨-, rfl⟩ := pure_eq_ok.mp h
        refine ⟨⟨_, _, le_rfl, rfl⟩, ?_⟩
        obtain ⟨row, hrow, htag⟩ := List.any_eq_true.mp htaken
        simp only [Bool.and_eq_true, beq_iff_eq] at htag
        ext a
        simp only [addedAliases, List.mem_singleton, exists_eq_left, Set.mem_ofPred_eq, hcandidate,
          Option.some.injEq]
        refine ⟨.inl, ?_⟩
        rintro (h | ⟨-, hfree, htag'⟩)
        · exact h
        · refine absurd ⟨row, hrow, ?_⟩ (hfree row.conversationId)
          rw [← htag', EmailConversationRoutingAlias.candidate, htag.1, htag.2]
      next htaken =>
        simp only [bind_eq_ok, freshId_eq_ok, insertRow_eq_ok] at h
        obtain ⟨_, _, ⟨rfl, rfl⟩, table, ht, rfl⟩ := h
        refine ⟨⟨_, _, Nat.le_succ _, rfl⟩, ?_⟩
        have hfree : ∀ c, (c, (⟨source.routingToken, base⟩ : RoutingCandidate)) ∉
            db.threads.aliases := by
          rintro c ⟨row, hrow, heq⟩
          refine htaken (List.any_eq_true.mpr ⟨row, hrow, ?_⟩)
          have htag : row.candidate = ⟨source.routingToken, base⟩ := congrArg Prod.snd heq
          simp only [EmailConversationRoutingAlias.candidate, RoutingCandidate.mk.injEq] at htag
          simp [htag.1, htag.2]
        ext ⟨c, x⟩
        simp only [addedAliases, List.mem_singleton, exists_eq_left, Set.mem_ofPred_eq, hcandidate,
          Option.some.injEq]
        constructor
        · rintro ⟨row, hrow, heq⟩
          rcases (Table.mem_insert? ht).mp hrow with hrow | rfl
          · exact .inl ⟨row, hrow, heq⟩
          · simp only [EmailConversationRoutingAlias.candidate, Prod.mk.injEq] at heq
            obtain ⟨rfl, rfl⟩ := heq
            exact .inr ⟨rfl, hfree, rfl⟩
        · rintro (⟨row, hrow, heq⟩ | ⟨rfl, -, rfl⟩)
          · exact ⟨row, (Table.mem_insert? ht).mpr (.inl hrow), heq⟩
          · exact ⟨_, (Table.mem_insert? ht).mpr (.inr rfl), rfl⟩

theorem addedAliases_cons (A : Set (Uuid × RoutingCandidate)) (target : Uuid) (s : ConversationView)
    (ss : List ConversationView) :
    addedAliases (addedAliases A target [s]) target ss = addedAliases A target (s :: ss) := by
  ext ⟨c, x⟩
  simp only [addedAliases, exists_eq_left, Set.mem_ofPred_eq, List.mem_cons, exists_eq_or_imp,
    List.not_mem_nil, or_false]
  constructor
  · rintro ((h | ⟨hc, hfree, hs⟩) | ⟨hc, hfree, hs⟩)
    · exact .inl h
    · exact .inr ⟨hc, hfree, .inl hs⟩
    · exact .inr ⟨hc, fun d hd => hfree d (.inl hd), .inr hs⟩
  · rintro (h | ⟨hc, hfree, hs | hs⟩)
    · exact .inl (.inl h)
    · exact .inl (.inr ⟨hc, hfree, hs⟩)
    · by_cases htag : s.candidate = some x
      · exact .inl (.inr ⟨hc, hfree, htag⟩)
      · refine .inr ⟨hc, fun d hd => ?_, hs⟩
        rcases hd with hd | ⟨-, -, hd⟩
        · exact hfree d hd
        · exact htag hd

theorem createRoutingAliases_added {target : Uuid} {sources : List EmailConversation} :
    ∀ {db db' : Database Digest} {u : Unit},
      sources.forM (createRoutingAlias target) db = .ok (u, db') →
        AliasesAdded db db' target (sources.map EmailConversation.view) := by
  induction sources with
  | nil =>
      intro db db' u h
      obtain ⟨-, rfl⟩ := pure_eq_ok.mp h
      refine ⟨⟨_, _, le_rfl, rfl⟩, ?_⟩
      ext a
      simp [addedAliases]
  | cons s ss ih =>
      intro db db' u h
      obtain ⟨_, db₁, h₁, h₂⟩ := bind_eq_ok.mp h
      have hs := createRoutingAlias_added h₁
      have hss := ih h₂
      obtain ⟨n, aliases, hn, rfl⟩ := hs.table
      obtain ⟨n', aliases', hn', rfl⟩ := hss.table
      refine ⟨⟨n', aliases', hn.trans hn', rfl⟩, ?_⟩
      rw [hss.added, hs.added, addedAliases_cons, List.map_cons]

/-! ### The sources are emptied and deleted -/

/-- The conversations are gone, and their aliases with them. -/
def Threads.without (t : Threads) (ids : List Uuid) : Threads :=
  { t with
    conversations := fun k => if k ∈ ids then none else t.conversations k
    aliases := {a | a ∈ t.aliases ∧ a.1 ∉ ids} }

/-- Deleting conversations to which no message belongs. -/
theorem deleteConversations_threads (now : Time) {ids : List Uuid} {db : Database Digest}
    (he : Emptied ids db) : db.nextId ≤ (deleteConversations now ids db).nextId ∧
      (deleteConversations now ids db).threads =
        { db.threads.without ids with nextId := (deleteConversations now ids db).nextId } := by
  have hgone : (db.messages.select fun m => m.conversationId.any ids.contains) = [] := by
    rw [Table.select, List.filter_eq_nil_iff]
    intro m hm
    simp [he m hm]
  obtain ⟨n, tombstones, hn, heq, -⟩ := deleteAttachments_eq now
    (fun a => a.messageId.any (([] : List Uuid)).contains) db
  have hmessages : ∀ k, (deleteConversations now ids db).messages.get? k = db.messages.get? k := by
    intro k
    simp only [deleteConversations, hgone, List.map_nil, heq, Table.get?_update, Table.get?_delete]
    cases hk : db.messages.get? k with
    | none => rfl
    | some m =>
        have hany : m.parentMessageId.any (([] : List Uuid)).contains = false := by
          cases m.parentMessageId <;> rfl
        simp [hany, he m (Table.mem_of_get? hk)]
  have hnext : (deleteConversations now ids db).nextId = n := by
    simp only [deleteConversations, hgone, List.map_nil, heq]
  refine ⟨hnext.symm ▸ hn, Threads.ext rfl (funext fun k => ?_) (funext fun k => ?_) ?_⟩
  · simp only [Database.threads, Threads.without, hmessages]
  · simp only [Database.threads, Threads.without]
    simp only [deleteConversations, hgone, List.map_nil, heq, Table.get?_delete]
    cases hk : db.conversations.get? k with
    | none => simp
    | some c =>
        have hid := Table.key_of_get? hk
        by_cases hmem : k ∈ ids <;> simp [hid, hmem]
  · ext ⟨c, x⟩
    simp only [Database.threads, Threads.without, Set.mem_ofPred_eq]
    simp only [deleteConversations, hgone, List.map_nil, heq, Table.mem_delete]
    constructor
    · rintro ⟨row, ⟨hrow, hout⟩, hx⟩
      refine ⟨⟨row, hrow, hx⟩, ?_⟩
      have hc : row.conversationId = c := congrArg Prod.fst hx
      simpa [hc] using hout
    · rintro ⟨⟨row, hrow, hx⟩, hout⟩
      have hc : row.conversationId = c := congrArg Prod.fst hx
      exact ⟨row, ⟨hrow, by simpa [hc] using hout⟩, hx⟩

theorem moveMessages_threads {target : Uuid} {sources : List Uuid} {db db' : Database Digest}
    {u : Unit} (h : moveMessages target sources db = .ok (u, db')) :
    db'.threads = { db.threads with
      messages := fun k => (db.threads.messages k).map (ThreadView.move target sources) } := by
  simp only [moveMessages, bind_eq_ok, updateMessages_eq_ok, pure_eq_ok] at h
  obtain ⟨_, _, ⟨-, rfl⟩, -, rfl⟩ := h
  rw [threads_updateMessages]
  refine Threads.ext rfl (funext fun k => ?_) rfl rfl
  simp only [Database.threads, Option.map_map]
  cases db.messages.get? k with
  | none => rfl
  | some m =>
      by_cases hm : m.conversationId.any sources.contains = true <;>
        simp [ThreadView.move, EmailMessage.threadView, hm]

/-! ### The identity of the survivor -/

/-- What `preserveMergedConversationState` does before the messages move. -/
def Threads.preserve (t : Threads) (target : Uuid) (ids : List Uuid) : Threads :=
  { t with
    conversations := fun k =>
      if k = target then (t.conversations k).map fun row => row.merge (t.rows ids)
      else t.conversations k
    aliases := addedAliases (movedAliases t.aliases target ids) target (t.rows ids) }

theorem rows_of_stored {db : Database Digest} {sources : List EmailConversation}
    (h : ∀ c ∈ sources, db.conversations.get? c.id = some c) :
    db.threads.rows (sources.map EmailConversation.id) = sources.map EmailConversation.view := by
  induction sources with
  | nil => rfl
  | cons c sources ih =>
      have hc : db.threads.conversations c.id = some c.view := by
        simp [Database.threads, h c List.mem_cons_self]
      have ih' := ih fun d hd => h d (List.mem_cons_of_mem _ hd)
      simp only [Threads.rows] at ih' ⊢
      rw [List.map_cons, List.filterMap_cons_some hc, ih', List.map_cons]

theorem preserveMergedConversationState_threads {target : EmailConversation}
    {rows : List EmailConversation} {db db' : Database Digest} {u : Unit}
    (hsources : unique (rows.filter fun s => s.id != target.id) ≠ [])
    (hstored : ∀ c ∈ unique (rows.filter fun s => s.id != target.id),
      db.conversations.get? c.id = some c) (htarget : db.conversations.get? target.id = some target)
    (h : preserveMergedConversationState target rows db = .ok (u, db')) :
    db.nextId ≤ db'.nextId ∧ db'.threads = { db.threads.preserve target.id
      ((unique (rows.filter fun s => s.id != target.id)).map EmailConversation.id) with
        nextId := db'.nextId } := by
  unfold preserveMergedConversationState at h
  cases hlist : unique (rows.filter fun s => s.id != target.id) with
  | nil => exact absurd hlist hsources
  | cons s ss =>
      rw [hlist] at h hstored
      dsimp only at h
      obtain ⟨_, db₁, h₁, h⟩ := bind_eq_ok.mp h
      obtain ⟨_, db₂, h₂, h⟩ := bind_eq_ok.mp h
      obtain ⟨_, db₃, h₃, h⟩ := bind_eq_ok.mp h
      obtain ⟨-, rfl⟩ := pure_eq_ok.mp h
      have hmove := modify_eq_ok.mp h₁
      obtain ⟨⟨n, aliases, hn, heq₂⟩, hadded⟩ := createRoutingAliases_added h₂
      obtain ⟨⟨c, hc, -⟩, heq₃⟩ := updateConversation_eq_ok h₃
      have hc' : c = target := by
        rw [heq₂, ← hmove] at hc
        exact Option.some.inj (hc.symm.trans htarget)
      have hrows := rows_of_stored hstored
      have haliases : db₁.threads.aliases =
          movedAliases db.threads.aliases target.id ((s :: ss).map EmailConversation.id) := by
        rw [← hmove]
        exact aliases_moved
      rw [haliases, ← hrows] at hadded
      subst hmove heq₂ heq₃
      refine ⟨hn, Threads.ext rfl rfl (funext fun k => ?_) hadded⟩
      simp only [Database.threads, Threads.preserve, Table.get?_update, Option.map_map] at hrows ⊢
      cases hk : db.conversations.get? k with
      | none => simp
      | some d =>
          have hid := Table.key_of_get? hk
          by_cases heq : k = target.id
          · have hd : d = target := Option.some.inj ((heq ▸ hk).symm.trans htarget)
            simp only [Option.map_some, Function.comp, hid, heq, beq_self_eq_true, if_true]
            rw [hd, view_mergedConversation, hrows]
          · simp [hid, heq]

/-! ### The merge as an event -/

/-- The sources, if there are any, are merged into the target. -/
def Threads.absorb (t : Threads) (target : Uuid) (sources : List Uuid) : Threads :=
  if sources = [] then t else t.apply (.merged target sources)

/-- The aliases of the sources are taken over, not deleted with them. -/
theorem mergedAliases_eq {t : Threads} {target : Uuid} {sources : List Uuid}
    (h : target ∉ sources) :
    {a | a ∈ addedAliases (movedAliases t.aliases target sources) target (t.rows sources) ∧
      a.1 ∉ sources} = t.mergedAliases target sources := by
  have hfree : ∀ x, (∀ c, (c, x) ∉ movedAliases t.aliases target sources) ↔
      ∀ c, (c, x) ∉ t.aliases := by
    intro x
    constructor
    · intro hnot c hc
      by_cases hs : c ∈ sources
      · exact hnot target (.inr ⟨rfl, c, hs, hc⟩)
      · exact hnot c (.inl ⟨hc, hs⟩)
    · rintro hnot c (⟨hc, -⟩ | ⟨-, s, -, hs⟩)
      · exact hnot c hc
      · exact hnot s hs
  have hrows : ∀ x, (∃ s ∈ t.rows sources, s.candidate = some x) ↔
      ∃ s ∈ sources, ∃ row, t.conversations s = some row ∧ row.candidate = some x := by
    intro x
    simp only [Threads.rows, List.mem_filterMap]
    constructor
    · rintro ⟨row, ⟨s, hs, hrow⟩, hx⟩
      exact ⟨s, hs, row, hrow, hx⟩
    · rintro ⟨s, hs, row, hrow, hx⟩
      exact ⟨row, ⟨s, hs, hrow⟩, hx⟩
  ext ⟨c, x⟩
  simp only [addedAliases, Threads.mergedAliases, Set.mem_ofPred_eq, hfree, hrows]
  simp only [movedAliases, Set.mem_ofPred_eq]
  constructor
  · rintro ⟨(hc | hc) | hc, -⟩
    · exact .inl hc
    · exact .inr (.inl hc)
    · exact .inr (.inr hc)
  · rintro (hc | hc | hc)
    · exact ⟨.inl (.inl hc), hc.2⟩
    · exact ⟨.inl (.inr hc), hc.1 ▸ h⟩
    · exact ⟨.inr hc, hc.1 ▸ h⟩

theorem merged_eq {t : Threads} {target : Uuid} {sources : List Uuid} (h : target ∉ sources) :
    Threads.without { t.preserve target sources with
      messages := fun k => (t.messages k).map (ThreadView.move target sources) } sources =
        t.apply (.merged target sources) :=
  Threads.ext rfl rfl rfl (mergedAliases_eq h)

theorem unassigned_ne_nil {target : Uuid} {related : List (ThreadedMessage Digest)}
    (h : ¬(unassignedConversations target related).isEmpty) :
    unassignedConversations target related ≠ [] := by
  simpa [List.isEmpty_iff] using h

/-- The identity and the aliases of the survivor, for the sources that the code passes. -/
theorem preserve_unassigned {target : EmailConversation} {related : List (ThreadedMessage Digest)}
    {db db' : Database Digest} {u : Unit} (hstored : db.Holds related)
    (htarget : db.conversations.get? target.id = some target)
    (hne : unassignedConversations target.id related ≠ [])
    (h : preserveMergedConversationState target ((related.map ThreadedMessage.conversation).filter
      fun c => (unassignedConversations target.id related).contains c.id) db = .ok (u, db')) :
    db.nextId ≤ db'.nextId ∧ db'.threads =
      { db.threads.preserve target.id (unassignedConversations target.id related) with
        nextId := db'.nextId } := by
  have hids : (unique (((related.map ThreadedMessage.conversation).filter fun c =>
      (unassignedConversations target.id related).contains c.id).filter fun s =>
        s.id != target.id)).map
        EmailConversation.id = unassignedConversations target.id related := sourceRows_ids hstored
  have hrows := preserveMergedConversationState_threads (fun hnil => ?_) (fun c hc => ?_) htarget h
  · rwa [hids] at hrows
  · rw [hnil] at hids
    exact hne hids.symm
  · obtain ⟨t, ht, rfl⟩ := mem_sourceRows hc
    exact hstored t ht

theorem mergeUnassigned_threads {config : Config} {now occurredAt : Time}
    {target : EmailConversation} {related : List (ThreadedMessage Digest)}
    {db db' : Database Digest} {u : Unit} (hstored : db.Holds related)
    (htarget : db.conversations.get? target.id = some target)
    (h : mergeUnassigned config now target related occurredAt db = .ok (u, db')) :
    db.nextId ≤ db'.nextId ∧ db'.threads =
      { db.threads.absorb target.id (unassignedConversations target.id related) with
        nextId := db'.nextId } := by
  unfold mergeUnassigned at h
  by_cases hempty : (unassignedConversations target.id related).isEmpty = true
  · rw [if_pos hempty] at h
    obtain ⟨-, rfl⟩ := pure_eq_ok.mp h
    refine ⟨le_rfl, ?_⟩
    rw [Threads.absorb, if_pos (List.isEmpty_iff.mp hempty)]
    rfl
  · rw [if_neg hempty] at h
    have hne := unassigned_ne_nil hempty
    obtain ⟨_, db₁, h₁, h⟩ := bind_eq_ok.mp h
    simp only [absorbConversations, bind_eq_ok, modify_eq_ok, pure_eq_ok] at h
    obtain ⟨_, db₂, h₂, _, db₃, h₃, _, _, ⟨-, rfl⟩, rfl⟩ := h
    obtain ⟨hn₁, ht₁⟩ := preserve_unassigned hstored htarget hne h₁
    have ht₂ := moveMessages_threads h₂
    have hv : Vacant (unassignedConversations target.id related) db₁ :=
      (keepsVacant_preserveMergedConversationState _ _ h₁).vacant (vacant_unassigned hstored)
    have he := (moveMessages_passive hv target_notMem_unassigned h₂).2
    have ht₃ := still_recordConversationMerges _ _ _ _ h₃
    obtain ⟨hn₄, ht₄⟩ := deleteConversations_threads now
      ((keepsVacant_recordConversationMerges _ _ _ _ h₃).emptied he)
    have hn₂ : db₂.nextId = db₁.nextId := congrArg Threads.nextId ht₂
    refine ⟨hn₁.trans (hn₂.ge.trans (ht₃.nextId_le.trans hn₄)), ?_⟩
    rw [ht₄, ht₃.threads, ht₂, ht₁, Threads.absorb, if_neg hne,
      ← merged_eq target_notMem_unassigned]
    rfl

/-- No conversation goes before the messages move. -/
theorem preserve_found {target : EmailConversation} {sources : List EmailConversation}
    {db db' : Database Digest} {u : Unit} {c : Uuid} (hc : (db.conversations.get? c).isSome)
    (h : preserveMergedConversationState target sources db = .ok (u, db')) :
    (db'.conversations.get? c).isSome := by
  unfold preserveMergedConversationState at h
  cases hlist : unique (sources.filter fun s => s.id != target.id) with
  | nil =>
      rw [hlist] at h
      obtain ⟨-, rfl⟩ := pure_eq_ok.mp h
      exact hc
  | cons s ss =>
      rw [hlist] at h
      dsimp only at h
      obtain ⟨_, db₁, h₁, h⟩ := bind_eq_ok.mp h
      obtain ⟨_, db₂, h₂, h⟩ := bind_eq_ok.mp h
      obtain ⟨_, db₃, h₃, h⟩ := bind_eq_ok.mp h
      obtain ⟨-, rfl⟩ := pure_eq_ok.mp h
      obtain ⟨⟨n, aliases, -, heq⟩, -⟩ := createRoutingAliases_added h₂
      obtain ⟨-, rfl⟩ := updateConversation_eq_ok h₃
      rw [heq, ← modify_eq_ok.mp h₁]
      simpa [Table.get?_update] using hc

/-- No message is touched before the messages move. -/
theorem preserve_messages {target : EmailConversation} {sources : List EmailConversation}
    {db db' : Database Digest} {u : Unit}
    (h : preserveMergedConversationState target sources db = .ok (u, db')) :
    db'.threads.messages = db.threads.messages := by
  unfold preserveMergedConversationState at h
  cases hlist : unique (sources.filter fun s => s.id != target.id) with
  | nil =>
      rw [hlist] at h
      obtain ⟨-, rfl⟩ := pure_eq_ok.mp h
      rfl
  | cons s ss =>
      rw [hlist] at h
      dsimp only at h
      obtain ⟨_, db₁, h₁, h⟩ := bind_eq_ok.mp h
      obtain ⟨_, db₂, h₂, h⟩ := bind_eq_ok.mp h
      obtain ⟨_, db₃, h₃, h⟩ := bind_eq_ok.mp h
      obtain ⟨-, rfl⟩ := pure_eq_ok.mp h
      obtain ⟨⟨n, aliases, -, heq⟩, -⟩ := createRoutingAliases_added h₂
      obtain ⟨-, rfl⟩ := updateConversation_eq_ok h₃
      rw [heq, ← modify_eq_ok.mp h₁]
      rfl

/-- A merge keeps a database sound. -/
theorem mergeUnassigned_keeps {config : Config} {now occurredAt : Time} {target : EmailConversation}
    {related : List (ThreadedMessage Digest)} {db db' : Database Digest} {u : Unit}
    (htarget : db.conversations.get? target.id = some target)
    (h : mergeUnassigned config now target related occurredAt db = .ok (u, db')) :
    Keeps db db' := by
  unfold mergeUnassigned at h
  split at h
  · obtain ⟨-, rfl⟩ := pure_eq_ok.mp h
    exact Std.Refl.refl db
  · obtain ⟨_, db₁, h₁, h⟩ := bind_eq_ok.mp h
    simp only [absorbConversations, bind_eq_ok, pure_eq_ok] at h
    obtain ⟨_, db₂, h₂, _, db₃, h₃, _, _, ⟨-, rfl⟩, h₄⟩ := h
    have hfound := preserve_found (c := target.id) (by rw [htarget]; rfl) h₁
    intro hs
    exact keeps_deleteConversations _ _ h₄ (keeps_recordConversationMerges _ _ _ _ h₃
      (keeps_moveMessages hfound h₂ (keeps_preserveMergedConversationState _ _ h₁ hs)))

end ResendConversation