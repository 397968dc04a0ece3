import ResendConversation.Foundation.Foremost
import ResendConversation.Inbound

/-! # Merged conversation states

Merges happen in steps, in an order that depends on the arrival of emails: the survivor of one
merge takes part in the next.  `mergeConversationState` gives the least row in the order of
precedence and time, so the state of the last survivor depends only on which conversations were
merged. -/

namespace ResendConversation

open Foundation

variable {rows rows' : List EmailConversation} {c : EmailConversation}
    {state : ConversationState} {t : Time}

/-- A row with the state of the rows merged in steps: the row itself, or one that holds what
the rows of some groups, themselves merged in steps, give. -/
inductive MergedInSteps : List EmailConversation → EmailConversation → Prop
  | row (c : EmailConversation) : MergedInSteps [c] c
  | merge (groups : List (List EmailConversation × EmailConversation)) (c : EmailConversation)
      (hgroups : ∀ g ∈ groups, MergedInSteps g.1 g.2)
      (h : mergeConversationState (groups.map Prod.snd) = some (c.state, c.stateChangedAt)) :
      MergedInSteps (groups.map Prod.fst).flatten c

/-! ### The least row -/

theorem earliest_stateChangedAt (rows : List EmailConversation) :
    rows.foldl (fun (earliest : Option Time) row =>
      match earliest with
      | some t => if t ≤ row.stateChangedAt then some t else some row.stateChangedAt
      | none => some row.stateChangedAt) none = earliest EmailConversation.stateChangedAt rows := by
  unfold earliest
  congr 1
  funext earliest row
  cases earliest with
  | none => rfl
  | some t => rfl

theorem mergeConversationState_eq (rows : List EmailConversation) : mergeConversationState rows =
    foremost mergePrecedence EmailConversation.state EmailConversation.stateChangedAt rows := by
  unfold mergeConversationState foremost
  cases mergePrecedence.find? fun candidate => rows.any fun row => row.state == candidate with
  | none => rfl
  | some winner => exact congrArg (Option.map fun t => (winner, t)) (earliest_stateChangedAt _)

theorem mem_mergePrecedence (state : ConversationState) : state ∈ mergePrecedence := by
  cases state <;> decide

theorem mergeConversationState_eq_some : mergeConversationState rows = some (state, t) ↔
    IsLeast (standings mergePrecedence EmailConversation.state
      EmailConversation.stateChangedAt rows)
      (standing mergePrecedence state t) := by
  rw [mergeConversationState_eq]
  exact foremost_eq_some fun _ _ => mem_mergePrecedence _

theorem mergeConversationState_isSome (h : rows ≠ []) : (mergeConversationState rows).isSome := by
  rw [mergeConversationState_eq]
  exact foremost_isSome (fun _ _ => mem_mergePrecedence _) h

theorem mergeConversationState_congr (h : ∀ c, c ∈ rows ↔ c ∈ rows') :
    mergeConversationState rows = mergeConversationState rows' := by
  rw [mergeConversationState_eq, mergeConversationState_eq]
  exact foremost_congr (fun _ _ => mem_mergePrecedence _) h

/-- The returned state is one of the rows', and the time that of a row in this state. -/
theorem mergeConversationState_holder (h : mergeConversationState rows = some (state, t)) :
    ∃ c ∈ rows, c.state = state ∧ c.stateChangedAt = t := by
  obtain ⟨c, hc, hplace⟩ := (mergeConversationState_eq_some.mp h).1
  exact ⟨c, hc, (standing_inj (mem_mergePrecedence _)).mp hplace⟩

theorem mergeConversationState_time (h : mergeConversationState rows = some (state, t))
    (hc : c ∈ rows) (hstate : c.state = state) : t ≤ c.stateChangedAt := by
  have hle := (mergeConversationState_eq_some.mp h).2 ⟨c, hc, rfl⟩
  rw [hstate, standing_le_iff] at hle
  rcases hle with hlt | ⟨-, hle⟩
  · exact absurd hlt (lt_irrefl _)
  · exact hle

/-- `TERMINATED` stands first, so it wins. -/
theorem mergeConversationState_terminated (h : mergeConversationState rows = some (state, t)) :
    state = .terminated ↔ ∃ c ∈ rows, c.state = .terminated := by
  constructor
  · rintro rfl
    obtain ⟨c, hc, hstate, -⟩ := mergeConversationState_holder h
    exact ⟨c, hc, hstate⟩
  · rintro ⟨c, hc, hstate⟩
    have hle := (mergeConversationState_eq_some.mp h).2 ⟨c, hc, rfl⟩
    have hfirst : mergePrecedence.idxOf ConversationState.terminated = 0 := rfl
    rw [hstate, standing_le_iff, hfirst] at hle
    have hplace : mergePrecedence.idxOf state = 0 := by
      rcases hle with hlt | ⟨heq, -⟩
      · exact absurd hlt (Nat.not_lt_zero _)
      · exact heq
    exact (List.idxOf_inj (mem_mergePrecedence state)).mp (hplace.trans hfirst.symm)

/-! ### Merges in steps -/

/-- The induction is over the grouping: every group is merged at once before the groups are. -/
theorem MergedInSteps.at_once (h : MergedInSteps rows c) :
    mergeConversationState rows = some (c.state, c.stateChangedAt) := by
  induction h with
  | row c =>
      refine mergeConversationState_eq_some.mpr ⟨⟨c, List.mem_singleton_self c, rfl⟩, ?_⟩
      rintro _ ⟨d, hd, rfl⟩
      rw [List.mem_singleton.mp hd]
  | merge groups c _ h ih =>
      simp only [mergeConversationState_eq] at h ih ⊢
      exact foremost_of_groups (fun _ _ _ _ => mem_mergePrecedence _)
        (fun _ _ => mem_mergePrecedence _) ih h

/-- The survivor of `preserveMergedConversationState` merges the rows of the target and the
sources in steps. -/
theorem MergedInSteps.mergedConversation {target : EmailConversation}
    {sources : List EmailConversation} {groups : List (List EmailConversation × EmailConversation)}
    (hrows : groups.map Prod.snd = target :: sources)
    (hgroups : ∀ g ∈ groups, MergedInSteps g.1 g.2) :
    MergedInSteps (groups.map Prod.fst).flatten (mergedConversation sources target target) := by
  refine .merge groups _ hgroups ?_
  have hsome := mergeConversationState_isSome (List.cons_ne_nil target sources)
  obtain ⟨⟨state, t⟩, hmerged⟩ := Option.isSome_iff_exists.mp hsome
  rw [hrows, hmerged]
  simp [ResendConversation.mergedConversation, hmerged]

/-- Merging conversation states is a semilattice operation on rows: it has a result, which no
order, repetition or grouping changes, and `TERMINATED` absorbs the other states. -/
theorem merge_semilattice :
    (∀ rows, rows ≠ [] → (mergeConversationState rows).isSome) ∧
    (∀ rows rows' : List EmailConversation, (∀ c, c ∈ rows ↔ c ∈ rows') →
      mergeConversationState rows = mergeConversationState rows') ∧
    (∀ rows c, MergedInSteps rows c →
      mergeConversationState rows = some (c.state, c.stateChangedAt)) ∧
    ∀ rows state t, mergeConversationState rows = some (state, t) →
      ((∃ c ∈ rows, c.state = .terminated) → state = .terminated) ∧
      (∃ c ∈ rows, c.state = state ∧ c.stateChangedAt = t) ∧
      ∀ c ∈ rows, c.state = state → t ≤ c.stateChangedAt :=
  ⟨fun _ => mergeConversationState_isSome, fun _ _ => mergeConversationState_congr,
    fun _ _ => MergedInSteps.at_once,
    fun _ _ _ h => ⟨(mergeConversationState_terminated h).mpr, mergeConversationState_holder h,
      fun _ => mergeConversationState_time h⟩⟩

/-- A conversation of the participant, with nothing but what the database demands. -/
def bareConversation (id : Uuid) (participantAddress : JsString) : EmailConversation where
  id := id
  routingToken := uuidText id
  apiVersion := none
  topicType := none
  externalTopicId := none
  title := []
  subject := []
  participantAddress := participantAddress
  participantName := none
  replyToBaseAddress := none
  replyToRequiresAllowlist := false
  state := .awaitingUs
  stateChangedAt := 0
  lastMessageAt := 0
  createdAt := 0
  eventSequence := 0

/-- Three rows, of which two are terminated, in two steps. -/
theorem merge_semilattice_reference : ∃ rows c, MergedInSteps rows c ∧
    rows.map EmailConversation.state = [.concluded, .terminated, .terminated] ∧
    mergeConversationState rows = some (.terminated, 2) ∧
    (c.state = .terminated ∧ c.stateChangedAt = 2) ∧
    mergeConversationState rows.reverse = some (.terminated, 2) := by
  let row := fun id state since =>
    { bareConversation id [] with state := state, stateChangedAt := since }
  have hpair : MergedInSteps [row 0 .concluded 1, row 1 .terminated 3] (row 0 .terminated 3) :=
    .merge [([row 0 .concluded 1], row 0 .concluded 1),
      ([row 1 .terminated 3], row 1 .terminated 3)]
      (row 0 .terminated 3)
      (List.forall_mem_cons.mpr ⟨.row _, List.forall_mem_singleton.mpr (.row _)⟩) rfl
  have hmerged : MergedInSteps [row 0 .concluded 1, row 1 .terminated 3, row 2 .terminated 2]
      (row 0 .terminated 2) :=
    .merge [([row 0 .concluded 1, row 1 .terminated 3], row 0 .terminated 3),
        ([row 2 .terminated 2], row 2 .terminated 2)]
      (row 0 .terminated 2)
      (List.forall_mem_cons.mpr ⟨hpair, List.forall_mem_singleton.mpr (.row _)⟩) rfl
  obtain ⟨-, hmembers, hsteps, -⟩ := merge_semilattice
  have honce := hsteps _ _ hmerged
  refine ⟨_, _, hmerged, rfl, honce, ⟨rfl, rfl⟩, ?_⟩
  rw [← hmembers _ _ fun c => List.mem_reverse.symm]
  exact honce

end ResendConversation
