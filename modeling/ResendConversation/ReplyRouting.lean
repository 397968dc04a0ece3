import ResendConversation.Conservation
import ResendConversation.Normalization
import ResendConversation.RoutingCodec

/-! # Replies come home

Every Reply-To address that the service has written leads to the conversation that its message is
in now.  The address encodes a routing tag.  A conversation answers to its own tag once its base
is fixed, and to those of its aliases; a merge turns the tag of every source into an alias of the
survivor.  `Threads.Homed` says that the tag of every outbound message is answered by its
conversation, and that the aliases are tags of conversations that are gone, each of one
conversation.  Tokens are not given twice, so a tag has one owner, and
`routedConversation` finds it. -/

namespace ResendConversation

open Foundation Tx JsString

variable {Digest : Type} {lower : JsString → JsString} {rt : Runtime Digest} {s s' : System Digest}
  {a : Action Digest}

theorem ConversationView.candidate_eq_some {row : ConversationView} {tag : RoutingCandidate} :
    row.candidate = some tag ↔ row.routingToken = tag.routingToken ∧
      row.replyToBaseAddress = some tag.baseAddress := by
  simp only [ConversationView.candidate, Option.map_eq_some_iff]
  constructor
  · rintro ⟨base, hbase, rfl⟩
    exact ⟨rfl, hbase⟩
  · rintro ⟨htoken, hbase⟩
    exact ⟨tag.baseAddress, hbase, by rw [htoken]⟩

namespace ThreadView

variable {target : Uuid} {sources : List Uuid} {v : ThreadView}

theorem move_direction : (v.move target sources).direction = v.direction := by
  unfold move
  split <;> rfl

theorem move_replyToAddress : (v.move target sources).replyToAddress = v.replyToAddress := by
  unfold move
  split <;> rfl

end ThreadView

namespace Threads

variable {t : Threads}

/-! ### Owners -/

/-- The conversation answers to the routing tag: it is its own, or that of an alias. -/
def Owns (t : Threads) (c : Uuid) (tag : RoutingCandidate) : Prop :=
  (∃ row, t.conversations c = some row ∧ row.candidate = some tag) ∨ (c, tag) ∈ t.aliases

structure Homed (lower : JsString → JsString) (t : Threads) : Prop where
  /-- The Reply-To address of an outbound message is answered by its conversation. -/
  routed : ∀ k v c r, t.messages k = some v → v.direction = .outbound → v.conversationId = some c →
    v.replyToAddress = some r → ∃ tag, t.Owns c tag ∧
      buildConversationReplyTo lower tag.baseAddress tag.routingToken = some r
  live : ∀ c tag, (c, tag) ∈ t.aliases → (t.conversations c).isSome
  /-- An alias has the token of a conversation that is gone. -/
  retired : ∀ c tag, (c, tag) ∈ t.aliases →
    ∃ d, tag.routingToken = uuidText (d + 1) ∧ d + 1 < t.nextId ∧ t.conversations d = none
  single : ∀ c d tag, (c, tag) ∈ t.aliases → (d, tag) ∈ t.aliases → c = d

/-- The identifiers fit into the texts of tokens. -/
def Roomy (t : Threads) : Prop := t.nextId ≤ 16 ^ 32

namespace Homed

/-- A conversation with the token of a tag that is owned is its owner, by its own token. -/
theorem own_of_token (h : t.Homed lower) (htokened : t.Tokened) (hroom : t.Roomy) {c d : Uuid}
    {tag : RoutingCandidate} {row : ConversationView} (hc : t.Owns c tag)
    (hrow : t.conversations d = some row) (htoken : row.routingToken = tag.routingToken) :
    d = c ∧ ∃ row, t.conversations c = some row ∧ row.candidate = some tag := by
  obtain ⟨hd, hdlt⟩ := htokened d row hrow
  rcases hc with ⟨own, hown, hcandidate⟩ | halias
  · obtain ⟨hcown, hclt⟩ := htokened c own hown
    have hsame := uuidText_injective (hdlt.trans_le hroom) (hclt.trans_le hroom)
      (hd.symm.trans
        (htoken.trans ((ConversationView.candidate_eq_some.mp hcandidate).1.symm.trans hcown)))
    exact ⟨Nat.succ.inj hsame, own, hown, hcandidate⟩
  · obtain ⟨e, he, helt, hgone⟩ := h.retired c tag halias
    have hsame := uuidText_injective (hdlt.trans_le hroom) (helt.trans_le hroom)
      (hd.symm.trans (htoken.trans he))
    obtain rfl : d = e := Nat.succ.inj hsame
    rw [hrow] at hgone
    cases hgone

/-- The tag of a conversation is no alias. -/
theorem own_notMem (h : t.Homed lower) (htokened : t.Tokened) (hroom : t.Roomy) {c d : Uuid}
    {tag : RoutingCandidate} {row : ConversationView} (hrow : t.conversations c = some row)
    (hcandidate : row.candidate = some tag) : (d, tag) ∉ t.aliases := by
  intro halias
  obtain ⟨e, he, helt, hgone⟩ := h.retired d tag halias
  obtain ⟨hc, hclt⟩ := htokened c row hrow
  have hsame := uuidText_injective (hclt.trans_le hroom) (helt.trans_le hroom)
    (hc.symm.trans ((ConversationView.candidate_eq_some.mp hcandidate).1.trans he))
  obtain rfl : c = e := Nat.succ.inj hsame
  rw [hrow] at hgone
  cases hgone

/-! ### Events -/

/-- Messages keep their direction, their conversation and their address, or are gone. -/
theorem of_messages (h : t.Homed lower) {messages : Uuid → Option ThreadView}
    (hmessages : ∀ k v', messages k = some v' → ∃ v, t.messages k = some v ∧
      v'.direction = v.direction ∧ v'.conversationId = v.conversationId ∧
      v'.replyToAddress = v.replyToAddress) : Homed lower { t with messages } where
  routed := by
    intro k v' c r hv' hout hc hr
    obtain ⟨v, hv, hdirection, hconversation, haddress⟩ := hmessages k v' hv'
    exact h.routed k v c r hv (hdirection ▸ hout) (hconversation ▸ hc) (haddress ▸ hr)
  live := h.live
  retired := h.retired
  single := h.single

/-- An update of one conversation that keeps its tag. -/
theorem onConversation (h : t.Homed lower) (c : Uuid) {f : ConversationView → ConversationView}
    (hf : ∀ row tag, t.conversations c = some row → row.candidate = some tag →
      (f row).candidate = some tag) :
    (t.onConversation c f).Homed lower where
  routed := by
    intro k v d r hv hout hd hr
    obtain ⟨tag, howns, hbuild⟩ := h.routed k v d r hv hout hd hr
    refine ⟨tag, ?_, hbuild⟩
    rcases howns with ⟨row, hrow, hcandidate⟩ | halias
    · left
      by_cases hdc : d = c
      · subst hdc
        exact ⟨f row, by simp [Threads.onConversation, hrow], hf row tag hrow hcandidate⟩
      · exact ⟨row, by simpa [Threads.onConversation, hdc] using hrow, hcandidate⟩
    · exact .inr halias
  live := by
    intro d tag halias
    have hsome := h.live d tag halias
    simp only [Threads.onConversation]
    split
    · rwa [Option.isSome_map]
    · exact hsome
  retired := by
    intro d tag halias
    obtain ⟨e, htoken, hlt, hgone⟩ := h.retired d tag halias
    refine ⟨e, htoken, hlt, ?_⟩
    simp only [Threads.onConversation]
    split
    · rw [hgone]
      rfl
    · exact hgone
  single := h.single

theorem begun (h : t.Homed lower) {c : Uuid} {row : ConversationView}
    (he : t.Enabled lower (.begun c row)) : (t.apply (.begun c row)).Homed lower := by
  obtain ⟨rfl, hfresh, -, -⟩ := he
  have hkeep : ∀ d own, t.conversations d = some own →
      (t.apply (.begun t.nextId row)).conversations d = some own := by
    intro d own hown
    have hne : d ≠ t.nextId := by
      rintro rfl
      rw [hfresh] at hown
      cases hown
    simpa only [Threads.apply, Function.update_apply, if_neg hne] using hown
  refine ⟨fun k v d r hv hout hd hr => ?_, fun d tag halias => ?_, fun d tag halias => ?_, h.single⟩
  · obtain ⟨tag, howns, hbuild⟩ := h.routed k v d r hv hout hd hr
    refine ⟨tag, howns.imp (fun hown => ?_) id, hbuild⟩
    obtain ⟨own, hown, hcandidate⟩ := hown
    exact ⟨own, hkeep d own hown, hcandidate⟩
  · obtain ⟨own, hown⟩ := Option.isSome_iff_exists.mp (h.live d tag halias)
    exact Option.isSome_iff_exists.mpr ⟨own, hkeep d own hown⟩
  · obtain ⟨e, htoken, hlt, hgone⟩ := h.retired d tag halias
    have hne : e ≠ t.nextId := ((Nat.lt_succ_self e).trans hlt).ne
    refine ⟨e, htoken, hlt.trans (Nat.lt_add_of_pos_right Nat.two_pos), ?_⟩
    simpa only [Threads.apply, Function.update_apply, if_neg hne] using hgone

theorem stored (h : t.Homed lower) {id : Uuid} {v : ThreadView}
    (he : t.Enabled lower (.stored id v)) : (t.apply (.stored id v)).Homed lower := by
  obtain ⟨rfl, hfresh, -, hplace⟩ := he
  refine ⟨fun k w d r hw hout hd hr => ?_, h.live, fun d tag halias => ?_, h.single⟩
  · simp only [Threads.apply, Function.update_apply] at hw
    split at hw
    · -- the address of a stored message is that of its conversation
      cases hw
      rw [hd] at hplace
      obtain ⟨row, hjoins⟩ := hplace
      obtain ⟨-, base, r', hbase, hr', hbuild⟩ := hjoins.outbound hout
      obtain rfl : r' = r := Option.some.inj (hr'.symm.trans hr)
      exact ⟨⟨row.routingToken, base⟩, .inl ⟨row, hjoins.found,
        ConversationView.candidate_eq_some.mpr ⟨rfl, hbase⟩⟩, hbuild⟩
    · exact h.routed k w d r hw hout hd hr
  · obtain ⟨e, htoken, hlt, hgone⟩ := h.retired d tag halias
    exact ⟨e, htoken, hlt.trans (Nat.lt_succ_self _), hgone⟩

/-- The survivor of a merge answers to the tags of the sources, and to its own. -/
theorem owns_merged (h : t.Homed lower) (htokened : t.Tokened) (hroom : t.Roomy) {target : Uuid}
    {sources : List Uuid} (htarget : target ∉ sources) {c : Uuid} {tag : RoutingCandidate}
    (hc : t.Owns c tag) :
    (t.apply (.merged target sources)).Owns (if c ∈ sources then target else c) tag := by
  rcases hc with ⟨row, hrow, hcandidate⟩ | halias
  · split
    next hmem =>
      refine .inr (.inr (.inr ⟨rfl, fun d => ?_, c, hmem, row, hrow, hcandidate⟩))
      exact h.own_notMem htokened hroom hrow hcandidate
    next hnot =>
      left
      by_cases hct : c = target
      · subst hct
        refine ⟨row.merge (t.rows sources), by simp [Threads.apply, hnot, hrow], ?_⟩
        obtain ⟨htoken, hbase⟩ := ConversationView.candidate_eq_some.mp hcandidate
        exact ConversationView.candidate_eq_some.mpr ⟨htoken, ConversationView.merge_base hbase⟩
      · exact ⟨row, by simp [Threads.apply, hnot, hct, hrow], hcandidate⟩
  · split
    next hmem => exact .inr (.inr (.inl ⟨rfl, c, hmem, halias⟩))
    next hnot => exact .inr (.inl ⟨halias, hnot⟩)

theorem merged (h : t.Homed lower) (htokened : t.Tokened) (hroom : t.Roomy) {target : Uuid}
    {sources : List Uuid} (he : t.Enabled lower (.merged target sources)) :
    (t.apply (.merged target sources)).Homed lower := by
  obtain ⟨-, htarget, row, hrow, -⟩ := he
  have hlive : ∀ d, d ∉ sources → (t.conversations d).isSome →
      ((t.apply (.merged target sources)).conversations d).isSome := by
    intro d hd hsome
    simp only [Threads.apply, if_neg hd]
    split
    · rwa [Option.isSome_map]
    · exact hsome
  have hgone : ∀ d, t.conversations d = none →
      (t.apply (.merged target sources)).conversations d = none := by
    intro d hd
    simp only [Threads.apply, hd, Option.map_none, ite_self]
  refine ⟨fun k v' d r hv' hout hd hr => ?_, fun d tag halias => ?_, fun d tag halias => ?_,
    fun c d tag hc hd => ?_⟩
  · obtain ⟨v, hv, rfl⟩ := Option.map_eq_some_iff.mp hv'
    obtain ⟨c, hc, rfl⟩ := ThreadView.conversationId_of_move hd
    rw [ThreadView.move_direction] at hout
    rw [ThreadView.move_replyToAddress] at hr
    obtain ⟨tag, howns, hbuild⟩ := h.routed k v c r hv hout hc hr
    exact ⟨tag, h.owns_merged htokened hroom htarget howns, hbuild⟩
  · rcases halias with ⟨halias, hnot⟩ | ⟨heq, -⟩ | ⟨heq, -⟩
    · exact hlive d hnot (h.live d tag halias)
    · cases heq
      exact hlive _ htarget (by rw [hrow]; rfl)
    · cases heq
      exact hlive _ htarget (by rw [hrow]; rfl)
  · rcases halias with ⟨halias, -⟩ | ⟨-, c, -, halias⟩ | ⟨-, -, c, hc, source, hsource, hcandidate⟩
    · obtain ⟨e, htoken, hlt, hnone⟩ := h.retired d tag halias
      exact ⟨e, htoken, hlt, hgone e hnone⟩
    · obtain ⟨e, htoken, hlt, hnone⟩ := h.retired c tag halias
      exact ⟨e, htoken, hlt, hgone e hnone⟩
    · -- the token of a source is retired by the merge
      obtain ⟨htoken, hlt⟩ := htokened c source hsource
      exact ⟨c, (ConversationView.candidate_eq_some.mp hcandidate).1.symm.trans htoken, hlt,
        by simp [Threads.apply, hc]⟩
  · rcases hc with ⟨hc, hcnot⟩ | ⟨rfl, x, hx, hxalias⟩ | ⟨rfl, hfree, -⟩
    · rcases hd with ⟨hd, -⟩ | ⟨-, y, hy, hyalias⟩ | ⟨-, hfree, -⟩
      · exact h.single c d tag hc hd
      · obtain rfl : c = y := h.single c y tag hc hyalias
        exact absurd hy hcnot
      · exact absurd hc (hfree c)
    · rcases hd with ⟨hd, hdnot⟩ | ⟨rfl, -⟩ | ⟨rfl, -⟩
      · obtain rfl : d = x := h.single d x tag hd hxalias
        exact absurd hx hdnot
      · rfl
      · rfl
    · rcases hd with ⟨hd, -⟩ | ⟨rfl, -⟩ | ⟨rfl, -⟩
      · exact absurd hd (hfree d)
      · rfl
      · rfl

theorem deleted (h : t.Homed lower) (c : Uuid) : (t.apply (.deleted c)).Homed lower := by
  have hkeep : ∀ d, d ≠ c → (t.apply (.deleted c)).conversations d = t.conversations d := by
    intro d hd
    simp only [Threads.apply, if_neg hd]
  refine ⟨fun k v' d r hv' hout hd hr => ?_, fun d tag halias => ?_, fun d tag halias => ?_,
    fun d e tag hd he => h.single d e tag hd.1 he.1⟩
  · simp only [Threads.apply] at hv'
    split at hv'
    · cases hv'
    next hnot =>
      obtain ⟨v, hv, rfl⟩ := Option.map_eq_some_iff.mp hv'
      have hdc : d ≠ c := by
        rintro rfl
        have hc : v.conversationId = some d := hd
        simp [Threads.inConversation, hv, hc] at hnot
      obtain ⟨tag, howns, hbuild⟩ := h.routed k v d r hv hout hd hr
      refine ⟨tag, ?_, hbuild⟩
      rcases howns with ⟨row, hrow, hcandidate⟩ | halias
      · exact .inl ⟨row, (hkeep d hdc).trans hrow, hcandidate⟩
      · exact .inr ⟨halias, hdc⟩
  · rw [hkeep d halias.2]
    exact h.live d tag halias.1
  · obtain ⟨e, htoken, hlt, hnone⟩ := h.retired d tag halias.1
    exact ⟨e, htoken, hlt, by simp [Threads.apply, hnone]⟩

/-- Every event keeps the tags at home. -/
theorem apply (h : t.Homed lower) (htokened : t.Tokened) (hroom : t.Roomy)
    (hlower : LowersAscii lower) (hmailboxes : t.Mailboxes lower) {e : ThreadEvent}
    (he : t.Enabled lower e) :
    (t.apply e).Homed lower := by
  have hsame : ∀ c (f : ConversationView → ConversationView),
      (∀ row, (f row).routingToken = row.routingToken ∧
        (f row).replyToBaseAddress = row.replyToBaseAddress) →
      (t.onConversation c f).Homed lower := by
    intro c f hf
    refine h.onConversation c fun row tag _ hcandidate => ?_
    rw [ConversationView.candidate_eq_some] at hcandidate ⊢
    rwa [(hf row).1, (hf row).2]
  -- a base that fits is the one that there is
  have hfixed : ∀ c base (f : ConversationView → ConversationView),
      (∃ row, t.conversations c = some row ∧ Fits lower row base) →
      (∀ row, (f row).routingToken = row.routingToken ∧ (f row).replyToBaseAddress = some base) →
      (t.onConversation c f).Homed lower := by
    intro c base f hfound hf
    obtain ⟨row, hrow, hfits⟩ := hfound
    refine h.onConversation c fun row' tag hrow' hcandidate => ?_
    obtain rfl : row = row' := Option.some.inj (hrow.symm.trans hrow')
    rw [ConversationView.candidate_eq_some] at hcandidate ⊢
    rw [(hf row).1, (hf row).2, hfits.keeps_base hlower hmailboxes hrow hcandidate.2]
    exact ⟨hcandidate.1, rfl⟩
  cases e with
  | drawn n =>
      refine ⟨h.routed, h.live, fun c tag halias => ?_, h.single⟩
      obtain ⟨d, htoken, hlt, hgone⟩ := h.retired c tag halias
      exact ⟨d, htoken, hlt.trans_le he, hgone⟩
  | begun c row => exact h.begun he
  | stored id v => exact h.stored he
  | identified id mid =>
      refine h.of_messages fun k v' hv' => ?_
      split at hv'
      · obtain ⟨v, hv, rfl⟩ := Option.map_eq_some_iff.mp hv'
        exact ⟨v, hv, rfl, rfl, rfl⟩
      · exact ⟨v', hv', rfl, rfl, rfl⟩
  | adopted p children =>
      refine h.of_messages fun k v' hv' => ?_
      obtain ⟨v, hv, rfl⟩ := Option.map_eq_some_iff.mp hv'
      refine ⟨v, hv, ?_⟩
      split <;> exact ⟨rfl, rfl, rfl⟩
  | merged target sources => exact h.merged htokened hroom he
  | promoted c base => exact hfixed c base _ he fun _ => ⟨rfl, rfl⟩
  | reopened c participant base => exact hfixed c base _ he.1 fun _ => ⟨rfl, rfl⟩
  | assigned c topic => exact hsame c _ fun _ => ⟨rfl, rfl⟩
  | turned c state => exact hsame c _ fun _ => ⟨rfl, rfl⟩
  | overridden c state => exact hsame c _ fun _ => ⟨rfl, rfl⟩
  | deleted c => exact h.deleted c

end Homed

end Threads

/-- In every reachable state the tags are at home, unless the identifiers are used up. -/
theorem Reachable.homed [DecidableEq Digest] (hlower : LowersAscii rt.toLowerCase)
    (h : Reachable rt s) (hroom : s.db.threads.Roomy) : s.db.threads.Homed rt.toLowerCase := by
  have hinv := h.invariant_threads (I := fun t => t.Tokened ∧ t.Mailboxes rt.toLowerCase ∧
    (t.Roomy → t.Homed rt.toLowerCase)) (fun config now => ?_) fun t e _ hI he => ?_
  · exact hinv.2.2 hroom
  · refine ⟨?_, ?_, fun _ => ⟨?_, ?_, ?_, ?_⟩⟩
    all_goals simp [Threads.Tokened, Threads.Mailboxes, System.initial, Database.initial,
      Database.threads, Table.empty, Table.get?, Table.mem_def]
  · obtain ⟨htokened, hmailboxes, hhomed⟩ := hI
    refine ⟨htokened.apply he, hmailboxes.apply he, fun hroom => ?_⟩
    have hroom' : t.Roomy := (Threads.later_apply he).nextId_le.trans hroom
    exact (hhomed hroom').apply htokened hroom' hlower hmailboxes he

/-! ### Canonical bases -/

/-- The base that the event sets, if it sets one, is one of the given. -/
def ThreadEvent.SetsBase (B : Set JsString) : ThreadEvent → Prop
  | .begun _ row => ∀ b, row.replyToBaseAddress = some b → b ∈ B
  | .promoted _ base | .reopened _ _ base => base ∈ B
  | _ => True

/-- The bases of the conversations and of their aliases are among the given. -/
structure Threads.BasedOn (B : Set JsString) (t : Threads) : Prop where
  conversations : ∀ c row b, t.conversations c = some row → row.replyToBaseAddress = some b → b ∈ B
  aliases : ∀ c tag, (c, tag) ∈ t.aliases → tag.baseAddress ∈ B

theorem Threads.BasedOn.apply {B : Set JsString} {t : Threads} (h : t.BasedOn B) {e : ThreadEvent}
    (he : e.SetsBase B) : (t.apply e).BasedOn B := by
  have hupdate : ∀ c (f : ConversationView → ConversationView),
      (∀ row b, t.conversations c = some row → (f row).replyToBaseAddress = some b → b ∈ B) →
      (t.onConversation c f).BasedOn B := by
    intro c f hf
    refine ⟨fun d row' b hrow' hb => ?_, h.aliases⟩
    simp only [Threads.onConversation] at hrow'
    split at hrow'
    next heq =>
      obtain ⟨row, hrow, rfl⟩ := Option.map_eq_some_iff.mp hrow'
      exact hf row b (heq ▸ hrow) hb
    next => exact h.conversations d row' b hrow' hb
  cases e with
  | drawn n => exact ⟨h.conversations, h.aliases⟩
  | stored id v => exact ⟨h.conversations, h.aliases⟩
  | identified id mid => exact ⟨h.conversations, h.aliases⟩
  | adopted p children => exact ⟨h.conversations, h.aliases⟩
  | begun c row =>
      refine ⟨fun d row' b hrow' hb => ?_, h.aliases⟩
      simp only [Threads.apply, Function.update_apply] at hrow'
      split at hrow'
      · cases hrow'
        exact he b hb
      · exact h.conversations d row' b hrow' hb
  | merged target sources =>
      refine ⟨fun d row' b hrow' hb => ?_, fun d tag halias => ?_⟩
      · simp only [Threads.apply] at hrow'
        split at hrow'
        · cases hrow'
        · split at hrow'
          · obtain ⟨row, hrow, rfl⟩ := Option.map_eq_some_iff.mp hrow'
            rcases ConversationView.base_of_merge hb with hb | ⟨source, hsource, hb⟩
            · exact h.conversations d row b hrow hb
            · obtain ⟨c, -, hc⟩ := Threads.mem_rows.mp hsource
              exact h.conversations c source b hc hb
          · exact h.conversations d row' b hrow' hb
      · rcases halias with
          ⟨halias, -⟩ | ⟨-, c, -, halias⟩ | ⟨-, -, c, -, source, hsource, hcandidate⟩
        · exact h.aliases d tag halias
        · exact h.aliases c tag halias
        · exact h.conversations c source _ hsource
            (ConversationView.candidate_eq_some.mp hcandidate).2
  | promoted c base => exact hupdate c _ fun row b _ hb => by cases hb; exact he
  | reopened c participant base => exact hupdate c _ fun row b _ hb => by cases hb; exact he
  | assigned c topic => exact hupdate c _ fun row b hrow hb => h.conversations c row b hrow hb
  | turned c state => exact hupdate c _ fun row b hrow hb => h.conversations c row b hrow hb
  | overridden c state => exact hupdate c _ fun row b hrow hb => h.conversations c row b hrow hb
  | deleted c =>
      refine ⟨fun d row' b hrow' hb => ?_, fun d tag halias => h.aliases d tag halias.1⟩
      simp only [Threads.apply] at hrow'
      split at hrow'
      · cases hrow'
      · exact h.conversations d row' b hrow' hb

/-- A step sets no base but those that its request asks for. -/
theorem Threading.setsBase (h : Threading rt s a s') {B : Set JsString} (hB : s.bases a ⊆ B) :
    (threading rt.toLowerCase).Explains (ThreadEvent.SetsBase B) s.db.threads s'.db.threads := by
  have hplain : ∀ e : ThreadEvent, e.IsPlain (s.bases a) → e.SetsBase B := by
    intro e he
    cases e with
    | begun c row => exact fun b hb => hB (he b hb)
    | promoted c base => exact hB he
    | reopened c participant base => exact he.elim
    | _ => trivial
  have hunbased : ∀ e : ThreadEvent, e.IsUnbased → e.SetsBase B := by
    intro e he
    cases e with
    | begun c row =>
        intro b hb
        rw [show row.replyToBaseAddress = none from he] at hb
        cases hb
    | promoted c base => exact he.elim
    | reopened c participant base => exact he.elim
    | _ => trivial
  cases h with
  | plain events => exact events.woven.mono hplain
  | projected pid c h email m action runs phase commits projection =>
      exact (unbased_projectInboundEmail _ _ _ _ _ _ _ projection).mono hunbased
  | recorded pid c p id mid createdAt m action runs records retrieved recording =>
      obtain ⟨_, _, _, hrecorded⟩ := recordOutboundInternetMessageId_threads recording
      exact hrecorded.unbased.mono hunbased
  | reopened pid c h conversation participant base action runs phase enabled requested events =>
      have hreopened : ThreadEvent.SetsBase B (.reopened conversation.id participant base) :=
        hB requested
      exact (Threads.explains hreopened enabled).trans (events.mono hplain)
  | assigned id topic title action events =>
      exact events.woven.mono fun e he => by cases e <;> trivial
  | overridden id state action events =>
      exact events.woven.mono fun e he => by cases e <;> trivial
  | deleted id action events =>
      exact events.woven.mono fun e he => by cases e <;> trivial

/-- The bases that a run sets are among those that its requests ask for. -/
theorem basedOn_of_run [DecidableEq Digest] {ok : System Digest → Action Digest → Prop}
    {B : Set JsString} {config : Config} {now : Time}
    (hrun : Run (step rt) ok (System.initial config now) s) (hok : ∀ s a, ok s a → s.bases a ⊆ B) :
    s.db.threads.BasedOn B := by
  have hinv : Threaded s ∧ s.db.threads.BasedOn B := by
    refine hrun.invariant (I := fun s => Threaded s ∧ s.db.threads.BasedOn B)
      ⟨threaded_initial config now, ?_, ?_⟩ ?_
    · simp [System.initial, Database.initial, Database.threads, Table.empty, Table.get?]
    · simp [System.initial, Database.initial, Database.threads, Table.empty, Table.mem_def]
    · intro s a s' hI hok' hs
      obtain ⟨hthreading, hthreaded⟩ := hI.1.step hs
      exact ⟨hthreaded, (hthreading.setsBase (hok s a hok')).invariant hI.2 fun _ _ he hI _ =>
        hI.apply he⟩
  exact hinv.2

/-! ### The lookup -/

theorem eq_singleton_of_nodup {α : Type} {l : List α} {x : α} (hl : l.Nodup)
    (h : ∀ y, y ∈ l ↔ y = x) :
    l = [x] := by
  have hperm : l.Perm [x] :=
    (List.perm_ext_iff_of_nodup hl (List.nodup_singleton x)).mpr fun y => by
    rw [h, List.mem_singleton]
  exact List.perm_singleton.mp hperm

/-- A variant of an address with a canonical base is read back as the tag it was built from. -/
theorem extractRoutingCandidate_variant {u : CaseData} {tag : RoutingCandidate} {id : Uuid}
    {r raw : JsString} (hbase : u.toLowerCase (trim tag.baseAddress) = tag.baseAddress)
    (htoken : tag.routingToken = uuidText id)
    (hbuild : buildConversationReplyTo u.toLowerCase tag.baseAddress tag.routingToken = some r)
    (hraw : IsVariant u.toLowerCase r raw) :
    extractRoutingCandidate u.toLowerCase raw = some tag := by
  have hdigits := isRoutingToken_uuidDigits id
  obtain ⟨hascii, hlower⟩ := hyphenate_lower hdigits
  rw [← uuidText_eq, ← htoken] at hascii hlower
  cases hparse : parseBaseMailbox u.toLowerCase tag.baseAddress with
  | none => simp [buildConversationReplyTo, hparse] at hbuild
  | some p =>
      obtain ⟨haddress, hp⟩ := parseBaseMailbox_eq_some hparse
      rw [buildConversationReplyTo_eq hparse hdigits hascii
        (hlower.trans (htoken.trans (uuidText_eq id)))] at hbuild
      obtain rfl := Option.some.inj hbuild
      obtain ⟨l, s, e, rfl, hs, hl, he⟩ := hraw
      rw [toLowerCase_tagged hdigits (haddress ▸ CaseData.lowered_toLowerCase _)] at hs
      have htrimmed : Trimmed (p.tagged (uuidDigits id)) := by
        rw [MailboxParts.trimmed_tagged hp.nonempty, ← haddress]
        exact CaseData.trimmed_toLowerCase.mpr (trimmed_trim _)
      have hs' : Trimmed s := CaseData.trimmed_toLowerCase.mp (hs ▸ htrimmed)
      have hne : s ≠ [] := by
        rintro rfl
        rw [show u.toLowerCase [] = [] from rfl, MailboxParts.tagged_eq] at hs
        simp at hs
      rw [extractRoutingCandidate_tagged hp (parseBaseMailbox_address hparse) hdigits
        (by rw [trim_surround hl he hs' hne, hs]), ← haddress, hbase, ← uuidText_eq, ← htoken]

/-- An owned tag has the token of a conversation. -/
theorem Threads.Owns.token {t : Threads} (hhomed : t.Homed lower) (htokened : t.Tokened) {c : Uuid}
    {tag : RoutingCandidate} (h : t.Owns c tag) : ∃ d, tag.routingToken = uuidText (d + 1) := by
  rcases h with ⟨row, hrow, hcandidate⟩ | halias
  · exact ⟨c, (ConversationView.candidate_eq_some.mp hcandidate).1.symm.trans
      (htokened c row hrow).1⟩
  · obtain ⟨d, htoken, -⟩ := hhomed.retired c tag halias
    exact ⟨d, htoken⟩

theorem Threads.Owns.basedOn {t : Threads} {B : Set JsString} (hB : t.BasedOn B) {c : Uuid}
    {tag : RoutingCandidate} (h : t.Owns c tag) : tag.baseAddress ∈ B := by
  rcases h with ⟨row, hrow, hcandidate⟩ | halias
  · exact hB.conversations c row _ hrow (ConversationView.candidate_eq_some.mp hcandidate).2
  · exact hB.aliases c tag halias

/-- The owner of the only candidate is found, whatever the base of the configuration is. -/
theorem routedConversation_eq_some {db : Database Digest} (hhomed : db.threads.Homed lower)
    (htokened : db.threads.Tokened) (hroom : db.threads.Roomy) {c : EmailConversation}
    {tag : RoutingCandidate} {inbound : InboundEmail} (hc : db.conversations.get? c.id = some c)
    (howns : db.threads.Owns c.id tag)
    (hparticipant : rt.toLowerCase c.participantAddress = inbound.participantAddress)
    (hcandidates : inbound.routingCandidates = [tag]) (base : JsString) :
    routedConversation rt db inbound base = some c := by
  have hview : ∀ d ∈ db.conversations, db.threads.conversations d.id = some d.view := by
    intro d hd
    simp [Database.threads, Table.mem_iff_get?.mp hd]
  have haliases : ∀ d : EmailConversation, (∃ row ∈ db.routingAliases, row.conversationId = d.id ∧
      tag.routingToken = row.routingToken ∧ tag.baseAddress = row.baseAddress) ↔
        (d.id, tag) ∈ db.threads.aliases := by
    intro d
    constructor
    · rintro ⟨row, hrow, hid, htoken, hbase⟩
      refine ⟨row, hrow, ?_⟩
      rw [hid, EmailConversationRoutingAlias.candidate, ← htoken, ← hbase]
    · rintro ⟨row, hrow, heq⟩
      obtain ⟨hid, hcandidate⟩ := Prod.mk.inj heq
      exact ⟨row, hrow, hid, by rw [← hcandidate]; rfl, by rw [← hcandidate]; rfl⟩
  have honly : ∀ d, d ∈ (db.conversations.rows.filter fun d =>
      rt.toLowerCase d.participantAddress == inbound.participantAddress &&
        ((inbound.routingCandidates.any fun candidate => candidate.routingToken == d.routingToken &&
            candidate.baseAddress == d.replyToBaseAddress.getD
              (rt.toLowerCase (JsString.trim base))) ||
          (db.routingAliases.select fun a => a.conversationId == d.id).any fun a =>
            inbound.routingCandidates.any fun candidate =>
              candidate.routingToken == a.routingToken &&
              candidate.baseAddress == a.baseAddress)) ↔ d = c := by
    intro d
    simp only [hcandidates, List.mem_filter, List.any_cons, List.any_nil, Bool.or_false,
      Bool.and_eq_true, Bool.or_eq_true, beq_iff_eq, List.any_eq_true, Table.mem_select]
    constructor
    · rintro ⟨hd, -, ⟨htoken, -⟩ | ⟨row, ⟨hrow, hid⟩, htoken, hbase⟩⟩
      · -- the candidate has the token of the conversation
        have hsame := (hhomed.own_of_token htokened hroom howns (hview d hd) htoken.symm).1
        exact Table.key_inj hd (Table.mem_iff_get?.mpr hc) hsame
      · -- the candidate has the tag of an alias
        have halias := (haliases d).mp ⟨row, hrow, hid, htoken, hbase⟩
        refine Table.key_inj hd (Table.mem_iff_get?.mpr hc) ?_
        rcases howns with ⟨own, hown, hcandidate⟩ | hcalias
        · exact absurd halias (hhomed.own_notMem htokened hroom hown hcandidate)
        · exact hhomed.single d.id c.id tag halias hcalias
    · rintro rfl
      have hmem : d ∈ db.conversations := Table.mem_iff_get?.mpr hc
      refine ⟨hmem, hparticipant, ?_⟩
      rcases howns with ⟨own, hown, hcandidate⟩ | halias
      · left
        obtain rfl : d.view = own := Option.some.inj ((hview d hmem).symm.trans hown)
        obtain ⟨htoken, hbase⟩ := ConversationView.candidate_eq_some.mp hcandidate
        have hbase : d.replyToBaseAddress = some tag.baseAddress := hbase
        exact ⟨htoken.symm, by rw [hbase]; rfl⟩
      · right
        obtain ⟨row, hrow, hid, htoken, hbase⟩ := (haliases d).mpr halias
        exact ⟨row, ⟨hrow, hid⟩, htoken, hbase⟩
  have hsingle := eq_singleton_of_nodup (List.Nodup.filter _ db.conversations.nodup.of_map) honly
  unfold routedConversation
  dsimp only
  rw [hsingle]

/-! ### The email -/

/-- The recipients that are searched for routing tags. -/
def routingRecipients (event : EmailEventData) (email : ResendEmail) : List JsString :=
  email.to ++ event.to ++ email.receivedFor.getD [] ++ event.receivedFor.getD []

/-- A new email from the participant, with no stored relative, to an address and to no other that
could be a routing address; the database can store it. -/
structure RepliesTo (rt : Runtime Digest) (db : Database Digest) (c : EmailConversation)
    (r : JsString) (event : EmailEventData) (email : ResendEmail) : Prop where
  kept : KeptEmail rt event email
  participant : rt.toLowerCase c.participantAddress =
    (parseInboundEmail rt event email).participantAddress
  unseen : ∀ m ∈ db.messages, carriesIdentity event (parseInboundEmail rt event email) m = false
  unrelated : ∀ m ∈ db.messages, ∀ id ∈ (parseInboundEmail rt event email).references,
    m.internetMessageId ≠ some id
  unawaited : ∀ m ∈ db.messages, m.parentMessageId = none →
    m.inReplyToInternetMessageId ≠ some (parseInboundEmail rt event email).internetMessageId
  addressed : ∃ raw ∈ routingRecipients event email, IsVariant rt.toLowerCase r raw
  undirected : ∀ raw ∈ routingRecipients event email, IsVariant rt.toLowerCase r raw ∨
    extractRoutingCandidate rt.toLowerCase raw = none

variable {db : Database Digest} {c : EmailConversation} {r : JsString} {event : EmailEventData}
  {email : ResendEmail}

/-- Nothing stored is related to such an email. -/
theorem RepliesTo.unrelated_messages (h : RepliesTo rt db c r event email)
    (scan : Scan (EmailMessage Digest)) :
    (findRelatedMessages rt db scan (parseInboundEmail rt event email)).eligible = [] ∧
      (findRelatedMessages rt db scan (parseInboundEmail rt event email)).waitingChildren = [] := by
  refine ⟨List.eq_nil_iff_forall_not_mem.mpr fun t ht => ?_,
    List.eq_nil_iff_forall_not_mem.mpr fun t ht => ?_⟩
  · obtain ⟨hm, hp, -⟩ := mem_eligibleFor.mp ht
    rw [Bool.and_eq_true] at hp
    cases hid : t.message.internetMessageId with
    | none => simp [hid] at hp
    | some id =>
        have hmem : id ∈ (parseInboundEmail rt event email).references := by simpa [hid] using hp.2
        exact h.unrelated t.message hm id hmem hid
  · obtain ⟨hm, hp, -⟩ := mem_eligibleFor.mp ht
    simp only [Bool.and_eq_true, beq_iff_eq, Option.isNone_iff_eq_none] at hp
    exact h.unawaited t.message hm hp.1.2 hp.2

/-- Then only its recipients decide. -/
theorem RepliesTo.choose (h : RepliesTo rt db c r event email) (scan : Scan (EmailMessage Digest))
    (base : JsString) : chooseConversation rt db (parseInboundEmail rt event email)
      (findRelatedMessages rt db scan (parseInboundEmail rt event email)) base =
        routedConversation rt db (parseInboundEmail rt event email) base := by
  obtain ⟨heligible, hwaiting⟩ := h.unrelated_messages scan
  have hparent :
      (findRelatedMessages rt db scan (parseInboundEmail rt event email)).parent = none :=
    Option.eq_none_iff_forall_ne_some.mpr fun t ht => by
      have hmem := mem_eligible_of_parent ht
      rw [heligible] at hmem
      cases hmem
  have hancestor :
      (findRelatedMessages rt db scan (parseInboundEmail rt event email)).nearestAncestor =
      none := by
    refine List.findSome?_eq_none_iff.mpr fun id _ => ?_
    change (findRelatedMessages rt db scan (parseInboundEmail rt event email)).eligible.find?
      _ = none
    rw [heligible, List.find?_nil]
  unfold chooseConversation
  simp only [hparent, hancestor, hwaiting, Option.map_none, Option.filter_none, List.map_nil,
    List.find?_nil, List.head?_nil, Option.none_or]

/-- All routing candidates of such an email are one. -/
theorem RepliesTo.candidates (h : RepliesTo rt db c r event email) {tag : RoutingCandidate}
    (hread : ∀ raw, IsVariant rt.toLowerCase r raw →
      extractRoutingCandidate rt.toLowerCase raw = some tag) :
    (parseInboundEmail rt event email).routingCandidates = [tag] := by
  refine eq_singleton_of_nodup (nodup_unique _) fun d => ?_
  have hmem : d ∈ (parseInboundEmail rt event email).routingCandidates ↔
      ∃ raw ∈ routingRecipients event email, extractRoutingCandidate rt.toLowerCase raw = some d :=
    mem_unique.trans List.mem_filterMap
  rw [hmem]
  constructor
  · rintro ⟨raw, hraw, hd⟩
    rcases h.undirected raw hraw with hvariant | hnone
    · exact Option.some.inj (hd.symm.trans (hread raw hvariant))
    · rw [hnone] at hd
      cases hd
  · rintro rfl
    obtain ⟨raw, hraw, hvariant⟩ := h.addressed
    exact ⟨raw, hraw, hread raw hvariant⟩

/-- The email is in the conversation that was chosen for it. -/
theorem Projected.attached {t t' : Threads} {participant mid : JsString} {v : ThreadView}
    {c x : Uuid} {sources children : List Uuid}
    (h : Projected lower t t' participant mid v c x sources children) :
    ∃ w, t'.messages x = some w ∧ w.conversationId = some c := by
  refine h.after.invariant (I := fun t => ∃ w, t.messages x = some w ∧
    w.conversationId = some c) ?_ ?_
  · have hstored : ((t.gather c sources x).apply (.stored x v)).messages x = some v := by
      simp [Threads.apply]
    refine ⟨_, congrArg (Option.map _) hstored, ?_⟩
    split <;> exact h.conversationId
  · intro t e he hI _
    cases e with
    | drawn n => exact hI
    | turned d state => exact hI
    | _ => exact he.elim

/-! ### Runs -/

/-- The request of the send handler that takes the step; a handler keeps the request that it was
started with. -/
def System.asking (s : System Digest) : Action Digest → Option SendRequest
  | .run pid _ => (s.procs.get? pid).bind fun p =>
      match p.2 with
      | .send h => some h.request
      | _ => none
  | _ => none

/-- The Reply-To address of the request is written as the validation of requests writes it. -/
def SendRequest.Canonical (lower : JsString → JsString) : SendRequest → Prop
  | .opening _ value => lower (trim value.message.replyTo.address) = value.message.replyTo.address
  | .reply _ _ value => lower (trim value.replyTo.address) = value.replyTo.address
  | .direct _ _ => True

/-- An address that a mailbox check accepts is written like this. -/
theorem canonical_of_normalizeEmailIdentity {u : CaseData} {value : Option Json}
    {fieldName : JsString} {replyTo : Bool} {identity : EmailIdentity}
    (h : normalizeEmailIdentity u.toLowerCase value fieldName replyTo = .ok identity) :
    u.toLowerCase (trim identity.address) = identity.address := by
  obtain ⟨text, -, haddress, hemail, -⟩ := normalizeEmailIdentity_eq_ok.mp h
  rw [(trimmed_emailAddress hemail).trim, ← haddress, CaseData.toLowerCase_toLowerCase]

instance (lower : JsString → JsString) : DecidablePred (SendRequest.Canonical lower)
  | .opening _ _ => inferInstanceAs (Decidable (_ = _))
  | .reply _ _ _ => inferInstanceAs (Decidable (_ = _))
  | .direct _ _ => inferInstanceAs (Decidable True)

/-- Only canonical requests are served. -/
def AsksCanonically (rt : Runtime Digest) (s : System Digest) (a : Action Digest) : Prop :=
  ∀ request ∈ s.asking a, request.Canonical rt.toLowerCase

instance (rt : Runtime Digest) (s : System Digest) (a : Action Digest) :
    Decidable (AsksCanonically rt s a) :=
  inferInstanceAs (Decidable (∀ request ∈ s.asking a, request.Canonical rt.toLowerCase))

theorem AsksCanonically.bases (h : AsksCanonically rt s a) :
    s.bases a ⊆ {b | rt.toLowerCase (trim b) = b} := by
  rintro b ⟨pid, c, handler, rfl, hruns, hb⟩
  have hasking : s.asking (.run pid c) = some handler.request := by
    rw [System.asking, show s.procs.get? pid = some (pid, .send handler) from hruns]
    rfl
  have hcanonical := h _ hasking
  cases hrequest : handler.request with
  | opening queued value =>
      rw [hrequest] at hb hcanonical
      rw [Set.mem_singleton_iff.mp hb]
      exact hcanonical
  | reply queued conversationId value =>
      rw [hrequest] at hb hcanonical
      rw [Set.mem_singleton_iff.mp hb]
      exact hcanonical
  | direct queued value =>
      rw [hrequest] at hb
      cases hb

/-- Whatever was sent, received, merged and deleted before: a new email from the participant of a
conversation to the Reply-To address of any of its outbound messages joins this conversation. -/
theorem reply_comes_home [DecidableEq Digest] {u : CaseData}
    (hlower : rt.toLowerCase = u.toLowerCase) {config : Config} {now : Time}
    (hrun : Run (step rt) (AsksCanonically rt) (System.initial config now) s)
    (hroom : s.db.nextId + 1 < 16 ^ 32) {m : EmailMessage Digest} (hm : m ∈ s.db.messages)
    (hout : m.direction = .outbound) {c : EmailConversation} (hc : c ∈ s.db.conversations)
    (hin : m.conversationId = some c.id) {r : JsString} (hr : m.replyToAddress = some r)
    {event : EmailEventData} {email : ResendEmail} (hreply : RepliesTo rt s.db c r event email)
    (config' : Config) (scan : Scan (EmailMessage Digest)) (now' : Time) (base : JsString) :
    ∃ x db', projectInboundEmail rt config' scan now' event email base s.db = .ok (x, db') ∧
      ∃ stored, db'.messages.get? x.id = some stored ∧ stored.conversationId = some c.id := by
  have hreach : Reachable rt s := ⟨config, now, hrun.mono fun _ _ _ => trivial⟩
  have hroom' : s.db.threads.Roomy := (Nat.lt_of_succ_lt hroom).le
  have hascii : LowersAscii rt.toLowerCase := fun _ h => by
    rw [hlower, CaseData.toLowerCase_ascii h]
  have hhomed := hreach.homed hascii hroom'
  have hbased := basedOn_of_run (B := {b | rt.toLowerCase (trim b) = b}) hrun fun _ _ h => h.bases
  have hget := Table.mem_iff_get?.mp hc
  -- the tag of the message leads to its conversation
  obtain ⟨tag, howns, hbuild⟩ := hhomed.routed m.id m.threadView c.id r
    (by simp [Database.threads, Table.mem_iff_get?.mp hm]) hout hin hr
  obtain ⟨d, htoken⟩ := howns.token hhomed hreach.tokened
  have hcanonical : rt.toLowerCase (trim tag.baseAddress) = tag.baseAddress := howns.basedOn hbased
  have hcandidates : (parseInboundEmail rt event email).routingCandidates = [tag] :=
    hreply.candidates fun raw hraw => by
    rw [hlower] at hcanonical hbuild hraw ⊢
    exact extractRoutingCandidate_variant hcanonical htoken hbuild hraw
  have hchosen :=
    (hreply.choose scan base).trans (routedConversation_eq_some hhomed hreach.tokened hroom' hget
    howns hreply.participant hcandidates base)
  -- nothing makes the transaction fail
  have hfails : Fails (ProjectionError rt s.db event email)
      (projectInboundEmail rt config' scan now' event email base) s.db :=
    projectInboundEmail_fails hreach.threaded.sound hreach.tokened hreach.proper
  cases hresult : projectInboundEmail rt config' scan now' event email base s.db with
  | error e =>
      obtain ⟨-, hrefused⟩ | ⟨-, hfull | ⟨k, hk, hcarries⟩⟩ := hfails _ hresult
      · exact absurd hreply.kept.storable hrefused
      · exact absurd hroom (Nat.not_lt_of_le hfull)
      · rw [hreply.unseen k hk] at hcarries
        cases hcarries
  | ok result =>
      obtain ⟨x, db'⟩ := result
      refine ⟨x, db', rfl, ?_⟩
      rcases projectInboundEmail_threads hresult with
        ⟨-, hx, -, hcarries⟩ | ⟨-, target, t₀, children, htarget, hstored, hprojected⟩
      · rw [hreply.unseen x hx] at hcarries
        cases hcarries
      · cases htarget with
        | chosen choice =>
            obtain rfl : c = target := Option.some.inj (hchosen.symm.trans choice)
            obtain ⟨w, hw, hwc⟩ := hprojected.attached
            obtain ⟨stored, hget', rfl⟩ := Option.map_eq_some_iff.mp hw
            exact ⟨stored, hget', hwc⟩
        | begun choice enabled topic =>
            rw [hchosen] at choice
            cases choice

namespace Reference

/-- The letter case of the language on ASCII text. -/
def runtime : Runtime SendRequest :=
  { Runtime.reference with toLowerCase := CaseData.reference.toLowerCase }

/-- Two replies to an email, each in a conversation of its own; the second conversation is answered
before the email arrives and merges it into the first. -/
def answeredBeforeMerge : List (Action SendRequest) :=
  grants ++ receive 0 (js "1") (js "1") (mail (js "<b>") (some (js "<a>"))) ++
    receive 1 (js "2") (js "2") (mail (js "<c>") (some (js "<a>"))) ++
    .start 2 (.send (.reply true 5 { «from» := sender, replyTo }) (js "k")) {} :: List.replicate 5
      (.run 2 {}) ++
    receive 3 (js "3") (js "3") (mail (js "<a>") none)

/-- The Reply-To address of the answer. -/
def answerAddress : JsString := js "r+c_00000000000000000000000000000006@s.co"

/-- An email to it, as another mail system may write it. -/
def toAnswer : ResendEmail :=
  { mail (js "<d>") none with «to» := [js " R+C_00000000000000000000000000000006@s.co"] }

def toAnswerEvent : EmailEventData :=
  { emailId := js "4", «from» := js "p@q.co", «to» := [], createdAt := 0 }

end Reference

/-- The conversation that was answered is gone, and the email joins the one that absorbed it. -/
theorem reply_comes_home_reference : ∃ s, ∃ m ∈ s.db.messages, ∃ c ∈ s.db.conversations,
    Run (step Reference.runtime) (AsksCanonically Reference.runtime) .reference s ∧
    m.replyToAddress = some Reference.answerAddress ∧ c.routingToken ≠ uuidText 6 ∧
    ∃ x db', projectInboundEmail Reference.runtime .reference (.sequential _) 0
        Reference.toAnswerEvent Reference.toAnswer [] s.db = .ok (x, db') ∧
      ∃ stored, db'.messages.get? x.id = some stored ∧ stored.conversationId = some c.id := by
  obtain ⟨s, hrun, ⟨m, hm, hout, hin, hr⟩, ⟨c, hc, hid, htoken, hparticipant⟩, hroom, hunseen,
      hunawaited⟩ :
      ∃ s, Run (step Reference.runtime) (AsksCanonically Reference.runtime) .reference s ∧
        (∃ m ∈ s.db.messages, m.direction = .outbound ∧ m.conversationId = some 1 ∧
          m.replyToAddress = some Reference.answerAddress) ∧
        (∃ c ∈ s.db.conversations, c.id = 1 ∧ c.routingToken ≠ uuidText 6 ∧
          Reference.runtime.toLowerCase c.participantAddress =
            (parseInboundEmail Reference.runtime Reference.toAnswerEvent
              Reference.toAnswer).participantAddress) ∧
        s.db.nextId + 1 < 16 ^ 32 ∧
        (∀ m ∈ s.db.messages, carriesIdentity Reference.toAnswerEvent
          (parseInboundEmail Reference.runtime Reference.toAnswerEvent Reference.toAnswer) m =
            false) ∧
        ∀ m ∈ s.db.messages, m.parentMessageId = none → m.inReplyToInternetMessageId ≠
          some (parseInboundEmail Reference.runtime Reference.toAnswerEvent
            Reference.toAnswer).internetMessageId :=
    Run.exists_of_exec Reference.answeredBeforeMerge (by decide +kernel)
  have hvariant : IsVariant Reference.runtime.toLowerCase Reference.answerAddress
      (js " R+C_00000000000000000000000000000006@s.co") :=
    ⟨js " ", js "R+C_00000000000000000000000000000006@s.co", [], by decide, by decide +kernel,
      forall_mem_of_all (by decide), nofun⟩
  have hreply : RepliesTo Reference.runtime s.db c Reference.answerAddress Reference.toAnswerEvent
      Reference.toAnswer :=
    { kept := ⟨by decide +kernel, by decide +kernel, by decide⟩
      participant := hparticipant
      unseen := hunseen
      unrelated := fun _ _ _ h => (by cases h)
      unawaited := hunawaited
      addressed := ⟨_, List.mem_singleton_self _, hvariant⟩
      undirected := fun raw hraw => .inl (by rw [List.mem_singleton.mp hraw]; exact hvariant) }
  exact ⟨s, m, hm, c, hc, hrun, hr, htoken, reply_comes_home (u := CaseData.reference) rfl hrun
    hroom hm hout hc (by rw [hin, hid]) hr hreply .reference (.sequential _) 0 []⟩

end ResendConversation
