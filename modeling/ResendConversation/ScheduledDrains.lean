import ResendConversation.EntryDrains

/-! # The scheduled drain

The loop of `runScheduledDrain` around the drains of the two lanes, and what both report.  A tick
stops where neither lane claims anything, so it can stop beside a batch that has lost its
entries, and beside the attachment lane when that is left out. -/

namespace ResendConversation

open Foundation

variable {Digest : Type} [DecidableEq Digest] {rt : Runtime Digest}

/-- The attachment lane in a round, with the number of entries that it claims; it is left out
while attachments are disabled. -/
inductive AttachmentRound (rt : Runtime Digest) (batchSize : ℕ) (now : Time) (seenAt : Uuid → Time)
    (s s' : System Digest) : Except TxError ℕ → Prop
  | drained {result : Except TxError AttachmentOutboxDrainResult}
      (enabled : s.config.attachmentsEnabled = true)
      (drain : LoneEntryDrain rt batchSize now seenAt s s' result) :
      AttachmentRound rt batchSize now seenAt s s' (result.map AttachmentOutboxDrainResult.claimed)
  | skipped (disabled : s.config.attachmentsEnabled = false) (time : now = s.now) (same : s' = s) :
      AttachmentRound rt batchSize now seenAt s s' (.ok 0)

/-- The round from `u` over `u'` to `u''` is the last one: a drain throws, or neither lane claims
anything.  The lanes are claimed from with the clock at `now` and at `now'`. -/
inductive RoundStops (rt : Runtime Digest) (batchSize : ℕ) (seenAt : Uuid → Time) (now now' : Time)
    (u u' u'' : System Digest) : Prop
  | threw {e : TxError} (drain : LoneDrain rt batchSize now seenAt u u' (.error e))
      (time : now' = u'.now) (same : u'' = u')
  | drained {r : OutboxDrainResult} {result : Except TxError ℕ}
      (drain : LoneDrain rt batchSize now seenAt u u' (.ok r))
      (attachments : AttachmentRound rt batchSize now' seenAt u' u'' result)
      (stop : ∀ n, result = .ok n → r.claimed = 0 ∧ n = 0)

/-- `runScheduledDrain` with `cap` rounds left stops in the round from `u` over `u'` to `u''`. -/
inductive ScheduledDrainStops (rt : Runtime Digest) (batchSize : ℕ) (seenAt : Uuid → Time)
    (now now' : Time) (u u' u'' : System Digest) : ℕ → System Digest → Prop
  | here {cap : ℕ} (stops : RoundStops rt batchSize seenAt now now' u u' u'') :
      ScheduledDrainStops rt batchSize seenAt now now' u u' u'' (cap + 1) u
  | later {cap : ℕ} {t t' : Time} {s s₁ s₂ : System Digest} {r : OutboxDrainResult} {n : ℕ}
      (drain : LoneDrain rt batchSize t seenAt s s₁ (.ok r))
      (attachments : AttachmentRound rt batchSize t' seenAt s₁ s₂ (.ok n))
      (claimed : r.claimed ≠ 0 ∨ n ≠ 0)
      (rest : ScheduledDrainStops rt batchSize seenAt now now' u u' u'' cap s₂) :
      ScheduledDrainStops rt batchSize seenAt now now' u u' u'' (cap + 1) s

section Rounds

variable {batchSize : ℕ} {now now' : Time} {seenAt : Uuid → Time} {s s' : System Digest}

theorem LoneDrain.reachable {result : Except TxError OutboxDrainResult}
    (hd : LoneDrain rt batchSize now seenAt s s' result) (h : Reachable rt s) :
    Reachable rt s' := by
  obtain ⟨pid, c, s₁, -, -, hstep, hrun, -⟩ := hd
  obtain ⟨config, start, hrun₀⟩ := h
  exact ⟨config, start, (hrun₀.tail trivial hstep).trans (hrun.mono fun _ _ _ => trivial)⟩

theorem AttachmentRound.reachable {result : Except TxError ℕ}
    (ha : AttachmentRound rt batchSize now seenAt s s' result) (h : Reachable rt s) :
    Reachable rt s' := by
  cases ha with
  | drained enabled drain =>
      obtain ⟨pid, c₀, c, s₁, s₂, hstart, -, -, hclaim, hrun, -⟩ := drain
      obtain ⟨config, start, hrun₀⟩ := h
      exact ⟨config, start, ((hrun₀.tail trivial hstart).tail trivial hclaim).trans
        (hrun.mono fun _ _ _ => trivial)⟩
  | skipped disabled time same => rwa [same]

variable {u u' u'' : System Digest}

/-- The last round of a scheduled drain. -/
theorem ScheduledDrainStops.last {cap : ℕ} (h : Reachable rt s)
    (hs : ScheduledDrainStops rt batchSize seenAt now now' u u' u'' cap s) :
    Reachable rt u ∧ RoundStops rt batchSize seenAt now now' u u' u'' := by
  induction hs with
  | here stops => exact ⟨h, stops⟩
  | later drain attachments _ _ ih => exact ih (attachments.reachable (drain.reachable h))

/-- What was left of the attachment lane after its part of the last round. -/
theorem AttachmentRound.outcome {result : Except TxError ℕ} (hc : Calls s)
    (ha : AttachmentRound rt batchSize now seenAt s s' result)
    (hstop : ∀ n, result = .ok n → n = 0) :
    (s.db.EntriesDrained now ↔ s'.provider.Recordable seenAt s.db.nextId ∧
      (s.config.attachmentsEnabled = true ∨ s.db.EntriesDrained now)) ∧
    (s'.provider.Recordable seenAt s.db.nextId → ∃ n, result = .ok n) := by
  cases ha with
  | @drained result enabled drain =>
      rcases drain.outcome hc with ⟨hdrained, ⟨r, rfl, -⟩, hcodes⟩ | ⟨hbusy, hclaimed, hcommits⟩
      · exact ⟨iff_of_true hdrained ⟨hcodes, .inl enabled⟩, fun _ => ⟨_, rfl⟩⟩
      · refine ⟨iff_of_false hbusy ?_, fun hcodes => ?_⟩
        · rintro ⟨hcodes, -⟩
          obtain ⟨r, rfl⟩ := hcommits hcodes
          exact hclaimed r rfl (hstop r.claimed rfl)
        · obtain ⟨r, rfl⟩ := hcommits hcodes
          exact ⟨_, rfl⟩
  | skipped disabled time same =>
      subst same
      have hstorable : AnswersStorable seenAt s' s' := answersStorable_of_silent fun k hk =>
        hc.silent hk
      have hcodes := hstorable.codes
      refine ⟨⟨fun h => ⟨hcodes, .inr h⟩, fun h => h.2.resolve_left ?_⟩, fun _ => ⟨_, rfl⟩⟩
      rw [disabled]
      exact Bool.false_ne_true

/-- In the last round nothing was left in either lane, if and only if the first ready batch had an
entry, the answers could be stored, and the attachment lane was not left out with an entry due. -/
theorem RoundStops.exact_iff (hinj : Function.Injective rt.hashSendRequest) (h : Reachable rt u)
    (hs : RoundStops rt batchSize seenAt now now' u u' u'') :
    u.db.Drained now ∧ u'.db.EntriesDrained now' ↔
      u.db.FirstBatchFilled now ∧ AnswersStorable seenAt u u' ∧
      u''.provider.Recordable seenAt u'.db.nextId ∧
      (u'.config.attachmentsEnabled = true ∨ u'.db.EntriesDrained now') := by
  cases hs with
  | threw drain time same =>
      rcases drain.outcome hinj h with ⟨-, hok, -⟩ | ⟨hbusy, hiff⟩
      · cases hok
      · refine iff_of_false (fun hleft => hbusy hleft.1) ?_
        rintro ⟨hfilled, hanswers, -⟩
        obtain ⟨r, hok, -⟩ := hiff.mpr ⟨hfilled, hanswers⟩
        cases hok
  | @drained r result drain attachments stop =>
      obtain ⟨hiff', hcommits⟩ := attachments.outcome (drain.reachable h).calls fun n hn =>
        (stop n hn).2
      rcases drain.outcome hinj h with ⟨hdrained, -, hfilled, hanswers⟩ | ⟨hbusy, hiff⟩
      · exact ⟨fun hleft => ⟨hfilled, hanswers, hiff'.mp hleft.2⟩,
          fun hgood => ⟨hdrained, hiff'.mpr hgood.2.2⟩⟩
      · refine iff_of_false (fun hleft => hbusy hleft.1) ?_
        rintro ⟨hfilled, hanswers, hcodes, -⟩
        obtain ⟨r', hok, hne⟩ := hiff.mpr ⟨hfilled, hanswers⟩
        cases hok
        obtain ⟨n, hn⟩ := hcommits hcodes
        exact hne (stop n hn).1

end Rounds

/-- In every reachable state a lone drain of any limit can return.  It returns without throwing,
and reports nothing only where nothing is ready in its lane, if and only if the first ready
batch still has an entry and the answers of the provider can be stored.  A scheduled drain stops
where nothing is ready in either lane under the same condition, if the attachment lane is not
left out beside a due entry and can record its errors; and only then. -/
theorem Reachable.drain_exact_iff {s : System Digest} (hinj : Function.Injective rt.hashSendRequest)
    (h : Reachable rt s) :
    (∀ limit, 1 ≤ limit ∧ limit ≤ 100 →
      ∃ seenAt s' result, LoneDrain rt limit s.now seenAt s s' result) ∧
    (∀ limit now seenAt s' result, LoneDrain rt limit now seenAt s s' result →
      (ReportsExactly s.db now result ↔
        s.db.FirstBatchFilled now ∧ AnswersStorable seenAt s s')) ∧
    ∀ batchSize cap seenAt now now' u u' u'',
      ScheduledDrainStops rt batchSize seenAt now now' u u' u'' cap s →
      (u.db.Drained now ∧ u'.db.EntriesDrained now' ↔
        u.db.FirstBatchFilled now ∧ AnswersStorable seenAt u u' ∧
        u''.provider.Recordable seenAt u'.db.nextId ∧
        (u'.config.attachmentsEnabled = true ∨ u'.db.EntriesDrained now')) := by
  refine ⟨fun limit hlimit => (h.coherent hinj).exists_loneDrain hlimit,
    fun limit now seenAt s' result hd => ?_, fun batchSize cap seenAt now now' u u' u'' hs => ?_⟩
  · rcases hd.outcome hinj h with ⟨hdrained, rfl, hgood⟩ | ⟨hbusy, hiff⟩
    · exact iff_of_true ⟨_, rfl, fun _ => hdrained⟩ hgood
    · rw [← hiff]
      exact exists_congr fun r => and_congr_right fun _ => ⟨fun hr hzero => hbusy (hr hzero),
        fun hne hzero => absurd hzero hne⟩
  · obtain ⟨hu, hstops⟩ := hs.last h
    exact hstops.exact_iff hinj hu

/-- A drain while one message waits. -/
theorem drain_exact_iff_reference : ∃ s seenAt s' result, s.db.outboxEntries.rows.length = 1 ∧
    LoneDrain .reference 10 s.now seenAt s s' result ∧
    (ReportsExactly s.db s.now result ↔
      s.db.FirstBatchFilled s.now ∧ AnswersStorable seenAt s s') := by
  obtain ⟨s, hrun, hs⟩ : ∃ s, Run (step .reference) Always .reference s ∧
      s.db.outboxEntries.rows.length = 1 := Run.exists_of_exec
    (Reference.grants ++ Reference.submit 0 (Reference.direct true (js "s")) (js "k"))
      (by decide +kernel)
  have hexact := (Reachable.of_run hrun).drain_exact_iff Runtime.reference_injective
  obtain ⟨seenAt, s', result, hd⟩ := hexact.1 10 (by decide)
  exact ⟨s, seenAt, s', result, hs, hd, hexact.2.1 10 _ seenAt s' result hd⟩

/-- A batch whose conversation was deleted while its retry was due, and a message that waits. -/
def emptiedBatch : List (Action SendRequest) :=
  Reference.grants ++ Reference.submit 0 (Reference.opening true (js "x")) (js "k") ++
    [.start 1 (.batchDrain 10) {}, .run 1 {}, .run 1 { lost := some (js "TimeoutError", []) },
      .run 1 {}, .operator (.deleteConversation 0), .tick 60000] ++
    Reference.submit 2 (Reference.direct true (js "s")) (js "l")

/-- What the batch drain in the slot returned. -/
def System.drained (s : System SendRequest) (pid : ℕ) : Option OutboxDrainResult :=
  match s.procs.get? pid with
  | some (_, .batchDrain (.returned (.ok r))) => some r
  | _ => none

/-- The drain then returns without a claimed message, while the other message waits. -/
theorem drain_inexact : ∃ s seenAt s' r, Function.Injective Runtime.reference.hashSendRequest ∧
    Reachable .reference s ∧ LoneDrain .reference 10 60000 seenAt s s' (.ok r) ∧ r.claimed = 0 ∧
    (∃ e ∈ s.db.outboxEntries, e.batchId = none ∧ s.db.messageIn e.messageId .pending = true) ∧
    ¬ReportsExactly s.db 60000 (.ok r) := by
  obtain ⟨s, hrun, hs⟩ : ∃ s, Run (step .reference) Always .reference s ∧
      ((step .reference s (.start 3 (.batchDrain 10) {})).any fun s₁ =>
        (exec (step .reference) (Alone 3 fun _ => 60000) s₁ [.run 3 {},
            .reach 8 none (.threw (.api ⟨422, some (js "missing")⟩)), .run 3 {}, .run 3 {}]).any
              fun s' =>
          s'.drained 3 |>.any fun r => r.claimed == 0) = true ∧ s.clock none = 60000 ∧
      ∃ e ∈ s.db.outboxEntries.rows, e.batchId = none ∧
        s.db.messageIn e.messageId .pending = true :=
    Run.exists_of_exec emptiedBatch (by decide +kernel)
  obtain ⟨hdrain, hclock, e, he, hnone, hpending⟩ := hs
  obtain ⟨s₁, hstart, hdrain⟩ := (Option.any_eq_true _ _).mp hdrain
  obtain ⟨s', hexec, hreturned⟩ := (Option.any_eq_true _ _).mp hdrain
  obtain ⟨r, hdrained, hzero⟩ := (Option.any_eq_true _ _).mp hreturned
  unfold System.drained at hdrained
  split at hdrained
  next k _ hp =>
    cases hdrained
    obtain rfl : k = 3 := Table.key_of_get? hp
    have hzero : r.claimed = 0 := by simpa using hzero
    refine ⟨s, fun _ => 60000, s', r, Runtime.reference_injective, .of_run hrun,
      ⟨3, {}, s₁, rfl, hclock, hstart, .of_exec hexec, hp⟩, hzero, ⟨e, he, hnone, hpending⟩, ?_⟩
    rintro ⟨r', hr, hexact⟩
    cases hr
    have hnone' := (hexact hzero).entries e he hnone
    rw [hpending] at hnone'
    cases hnone'
  next => cases hdrained

end ResendConversation
