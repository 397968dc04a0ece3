import Mathlib.Data.List.TakeWhile
import ResendConversation.LetterCase
import ResendConversation.Threading

/-! # Reply subjects

`normalizeSubject` strips reply prefixes until none is left, and goes back to the trimmed
subject when nothing is left.  `createReplySubject` puts one prefix in front.  A subject that
says something keeps what it says over any number of replies; one that consists of reply
prefixes only, or of nothing, gains a prefix with every reply. -/

namespace ResendConversation

open JsString

variable {s t p rest : JsString}

/-! ### Reply prefixes -/

/-- The words that announce a reply or a forwarded message. -/
def replyWords : List JsString := [js "re", js "fw", js "fwd"]

/-- A reply word and a colon in white space. -/
def IsReplyPrefix (p : JsString) : Prop :=
  ∃ l w m r, p = l ++ w ++ m ++ 58 :: r ∧
    (w.map fun c => if isUpperLetter c then c + 32 else c) ∈ replyWords ∧
    ∀ c ∈ l ++ m ++ r, isSpace c = true

/-- Reply prefixes, one after another, and then white space. -/
inductive OnlyPrefixes : JsString → Prop
  | blank {s : JsString} (h : ∀ c ∈ s, isSpace c = true) : OnlyPrefixes s
  | reply {p s : JsString} (hp : IsReplyPrefix p) (h : OnlyPrefixes s) : OnlyPrefixes (p ++ s)

/-- The subject says the same after a reply, and a reply to the reply has the same subject. -/
structure SubjectKept (s : JsString) : Prop where
  /-- The loop leaves at its condition, and more rounds would change nothing. -/
  ends : ∀ n, (trim s).length ≤ n → stripSubjectPrefix (stripSubjectPrefixes n (trim s)) = none ∧
    stripSubjectPrefixes n (trim s) = stripSubjectPrefixes (trim s).length (trim s)
  normal : normalizeSubject (normalizeSubject s) = normalizeSubject s
  reply : normalizeSubject (createReplySubject s) = normalizeSubject s
  again : createReplySubject (createReplySubject s) = createReplySubject s

/-! ### One prefix -/

theorem trimStart_of_space (h : ∀ c ∈ s, isSpace c = true) (t : JsString) :
    trimStart (s ++ t) = trimStart t := by
  rw [trimStart, List.dropWhile_append_of_pos h, trimStart]

theorem trimStart_trimStart (s : JsString) : trimStart (trimStart s) = trimStart s :=
  trimStart_eq head_trimStart

theorem takeWhile_append_trimStart (s : JsString) : s.takeWhile isSpace ++ trimStart s = s :=
  List.takeWhile_append_dropWhile

theorem isSpace_of_mem_takeWhile {c : UInt16} (h : c ∈ s.takeWhile isSpace) : isSpace c = true :=
  List.mem_takeWhile_imp h

theorem stripLiteral_eq_some {literal : JsString} :
    stripLiteral literal s = some rest ↔ ∃ w, s = w ++ rest ∧
      (w.map fun c => if isUpperLetter c then c + 32 else c) = literal := by
  unfold stripLiteral
  dsimp only
  constructor
  · intro h
    split at h
    next hmatched =>
      rw [Option.some.injEq] at h
      exact ⟨s.take literal.length, by rw [← h, List.take_append_drop], beq_iff_eq.mp hmatched⟩
    next => cases h
  · rintro ⟨w, rfl, rfl⟩
    rw [List.length_map, List.take_left, List.drop_left, if_pos (beq_self_eq_true _)]

theorem stripColon_eq_some :
    stripColon s = some rest ↔ ∃ m r, s = m ++ 58 :: r ∧ (∀ c ∈ m, isSpace c = true) ∧
      rest = trimStart r := by
  unfold stripColon
  constructor
  · intro h
    split at h
    next r hcolon =>
      rw [Option.some.injEq] at h
      exact ⟨s.takeWhile isSpace, r, by rw [← hcolon, takeWhile_append_trimStart],
        fun c hc => isSpace_of_mem_takeWhile hc, h.symm⟩
    next => cases h
  · rintro ⟨m, r, rfl, hm, rfl⟩
    rw [trimStart_of_space hm, trimStart_eq (by simp +decide)]
    rfl

/-- A reply word has neither white space nor a colon. -/
theorem mem_replyWord {w : JsString}
    (hw : (w.map fun c => if isUpperLetter c then c + 32 else c) ∈ replyWords) {c : UInt16}
    (hc : c ∈ w) : isSpace c = false ∧ c ≠ 58 := by
  have hletters : ∀ word ∈ replyWords, ∀ d ∈ word, 97 ≤ d.toNat ∧ d.toNat ≤ 122 := by
    intro word hword
    simp only [replyWords, List.mem_cons, List.not_mem_nil, or_false] at hword
    rcases hword with rfl | rfl | rfl
    · exact forall_mem_of_all (by decide)
    · exact forall_mem_of_all (by decide)
    · exact forall_mem_of_all (by decide)
  have hletter :=
    hletters _ hw _ (List.mem_map_of_mem (f := fun c => if isUpperLetter c then c + 32 else c) hc)
  have hnat : c.toNat ≤ 122 ∧ 65 ≤ c.toNat := by
    by_cases hupper : isUpperLetter c = true
    · simp only [isUpperLetter, Bool.and_eq_true, decide_eq_true_eq,
        UInt16.le_iff_toNat_le] at hupper
      exact ⟨by have := hupper.2; simp at this; omega, by have := hupper.1; simpa using this⟩
    · rw [if_neg hupper] at hletter
      omega
  constructor
  · by_contra hspace
    rw [Bool.not_eq_false] at hspace
    simp only [isSpace, Bool.or_eq_true, Bool.and_eq_true, decide_eq_true_eq, beq_iff_eq,
      UInt16.le_iff_toNat_le, ← UInt16.toNat_inj] at hspace
    simp at hspace
    omega
  · rintro rfl
    simp at hnat

/-- A string determines the reply word that it starts with before a colon. -/
theorem takeWhile_replyWord {w m r : JsString}
    (hw : (w.map fun c => if isUpperLetter c then c + 32 else c) ∈ replyWords)
    (hm : ∀ c ∈ m, isSpace c = true) :
    (w ++ m ++ 58 :: r).takeWhile (fun c => !(isSpace c || c == 58)) = w := by
  rw [List.append_assoc, List.takeWhile_append_of_pos]
  · cases m with
    | nil => simp
    | cons c m => simp [hm c (by simp)]
  · intro c hc
    obtain ⟨hspace, hcolon⟩ := mem_replyWord hw hc
    simp [hspace, hcolon]

theorem stripWord {w m r literal : JsString}
    (hw : (w.map fun c => if isUpperLetter c then c + 32 else c) ∈ replyWords)
    (hm : ∀ c ∈ m, isSpace c = true) (hliteral : literal ∈ replyWords) :
    (stripLiteral literal (w ++ m ++ 58 :: r)).bind stripColon =
      if (w.map fun c => if isUpperLetter c then c + 32 else c) =
        literal then some (trimStart r) else none := by
  split
  next heq =>
    rw [stripLiteral_eq_some.mpr ⟨w, List.append_assoc _ _ _, heq⟩, Option.bind_some]
    exact stripColon_eq_some.mpr ⟨m, r, rfl, hm, rfl⟩
  next hne =>
    cases hl : stripLiteral literal (w ++ m ++ 58 :: r) with
    | none => rfl
    | some u =>
        obtain ⟨w', hsplit, hw'⟩ := stripLiteral_eq_some.mp hl
        rw [Option.bind_some]
        cases hc : stripColon u with
        | none => rfl
        | some v =>
            -- the two words before the colon are the same
            obtain ⟨m', r', rfl, hm', -⟩ := stripColon_eq_some.mp hc
            have hword := takeWhile_replyWord (r := r) hw hm
            rw [hsplit, ← List.append_assoc, takeWhile_replyWord (hw' ▸ hliteral) hm'] at hword
            exact absurd (hword ▸ hw') hne

/-- The regular expression of the prefix, as a relation. -/
theorem stripSubjectPrefix_eq_some :
    stripSubjectPrefix s = some rest ↔ ∃ p t, IsReplyPrefix p ∧ s = p ++ t ∧
      rest = trimStart t := by
  constructor
  · intro h
    have hword : ∃ literal ∈ replyWords,
        (stripLiteral literal (trimStart s)).bind stripColon = some rest := by
      simp only [stripSubjectPrefix, Option.or_eq_some_iff] at h
      rcases h with h | ⟨-, h | ⟨-, h⟩⟩
      · exact ⟨js "re", by simp [replyWords], h⟩
      · exact ⟨js "fw", by simp [replyWords], h⟩
      · exact ⟨js "fwd", by simp [replyWords], h⟩
    obtain ⟨literal, hliteral, h⟩ := hword
    obtain ⟨u, hu, hcolon⟩ := Option.bind_eq_some_iff.mp h
    obtain ⟨w, hs, hw⟩ := stripLiteral_eq_some.mp hu
    obtain ⟨m, t, rfl, hm, hrest⟩ := stripColon_eq_some.mp hcolon
    refine ⟨s.takeWhile isSpace ++ w ++ m ++ [58], t,
      ⟨s.takeWhile isSpace, w, m, [], rfl, hw ▸ hliteral, ?_⟩, ?_, hrest⟩
    · intro c hc
      simp only [List.append_nil, List.mem_append] at hc
      exact hc.elim isSpace_of_mem_takeWhile (hm c)
    · conv_lhs => rw [← takeWhile_append_trimStart s, hs]
      simp
  · rintro ⟨p, t, ⟨l, w, m, r, rfl, hw, hspace⟩, rfl, rfl⟩
    simp only [List.mem_append] at hspace
    have hstart : trimStart (l ++ w ++ m ++ 58 :: r ++ t) = w ++ m ++ 58 :: (r ++ t) := by
      rw [show l ++ w ++ m ++ 58 :: r ++ t = l ++ (w ++ m ++ 58 :: (r ++ t)) by simp,
        trimStart_of_space fun c hc => hspace c (.inl (.inl hc))]
      refine trimStart_eq fun c hc => ?_
      cases w with
      | nil => simp [replyWords, js] at hw
      | cons d w =>
          rw [List.cons_append, List.cons_append, List.head?_cons, Option.mem_some_iff] at hc
          exact hc ▸ (mem_replyWord hw List.mem_cons_self).1
    have hm : ∀ c ∈ m, isSpace c = true := fun c hc => hspace c (.inl (.inr hc))
    have hrest : trimStart (r ++ t) = trimStart t :=
      trimStart_of_space (fun c hc => hspace c (.inr hc)) t
    unfold stripSubjectPrefix
    dsimp only
    rw [hstart, stripWord hw hm (by simp [replyWords]), stripWord hw hm (by simp [replyWords]),
      stripWord hw hm (by simp [replyWords]), hrest]
    simp only [replyWords, List.mem_cons, List.not_mem_nil, or_false] at hw
    rcases hw with hw | hw | hw
    · rw [hw]
      rfl
    · rw [hw]
      rfl
    · rw [hw]
      rfl

theorem IsReplyPrefix.ne_nil (h : IsReplyPrefix p) : p ≠ [] := by
  obtain ⟨l, w, m, r, rfl, -⟩ := h
  simp

theorem IsReplyPrefix.append_space (h : IsReplyPrefix p) {t : JsString}
    (ht : ∀ c ∈ t, isSpace c = true) :
    IsReplyPrefix (p ++ t) := by
  obtain ⟨l, w, m, r, rfl, hw, hspace⟩ := h
  refine ⟨l, w, m, r ++ t, by simp, hw, fun c hc => ?_⟩
  rw [← List.append_assoc, List.mem_append] at hc
  exact hc.elim (hspace c) (ht c)

/-! ### The loop -/

theorem stripSubjectPrefix_trimStart (s : JsString) :
    stripSubjectPrefix (trimStart s) = stripSubjectPrefix s := by
  unfold stripSubjectPrefix
  rw [trimStart_trimStart]

theorem stripSubjectPrefixes_of_none (h : stripSubjectPrefix s = none) (n : ℕ) :
    stripSubjectPrefixes n s = s := by
  cases n with
  | zero => rfl
  | succ n => rw [stripSubjectPrefixes, h]

/-- A round leaves less, so the rounds end at the condition of the loop. -/
theorem stripSubjectPrefixes_ends {n : ℕ} (h : s.length ≤ n) :
    stripSubjectPrefix (stripSubjectPrefixes n s) = none ∧
      stripSubjectPrefixes n s = stripSubjectPrefixes s.length s := by
  induction n using Nat.strong_induction_on generalizing s with
  | _ n ih => ?_
  cases hstrip : stripSubjectPrefix s with
  | none => rw [stripSubjectPrefixes_of_none hstrip,
      stripSubjectPrefixes_of_none hstrip]; exact ⟨hstrip, rfl⟩
  | some rest =>
      obtain ⟨p, t, hp, rfl, rfl⟩ := stripSubjectPrefix_eq_some.mp hstrip
      have hpos := List.length_pos_iff.mpr hp.ne_nil
      have hshort : (trimStart t).length ≤ t.length := (List.dropWhile_suffix isSpace).length_le
      rw [List.length_append] at h ⊢
      obtain ⟨n, rfl⟩ : ∃ k, n = k + 1 := ⟨n - 1, by omega⟩
      obtain ⟨k, hk⟩ : ∃ k, p.length + t.length = k + 1 := ⟨p.length + t.length - 1, by omega⟩
      rw [hk, stripSubjectPrefixes, stripSubjectPrefixes, hstrip]
      have hleft := ih n (by omega) (s := trimStart t) (by omega)
      have hright := ih k (by omega) (s := trimStart t) (by omega)
      exact ⟨hleft.1, hleft.2.trans hright.2.symm⟩

/-- What the loop leaves is the end of the string, without white space in front. -/
theorem stripSubjectPrefixes_suffix (n : ℕ) (h : ∀ c ∈ s.head?, isSpace c = false) :
    stripSubjectPrefixes n s <:+ s ∧ ∀ c ∈ (stripSubjectPrefixes n s).head?, isSpace c = false := by
  induction n generalizing s with
  | zero => exact ⟨List.suffix_rfl, h⟩
  | succ n ih =>
      rw [stripSubjectPrefixes]
      split
      next => exact ⟨List.suffix_rfl, h⟩
      next rest hstrip =>
        obtain ⟨p, t, -, rfl, rfl⟩ := stripSubjectPrefix_eq_some.mp hstrip
        obtain ⟨hsuffix, hhead⟩ := ih (s := trimStart t) head_trimStart
        exact ⟨(hsuffix.trans (List.dropWhile_suffix isSpace)).trans
          (List.suffix_append p t), hhead⟩

/-- The loop leaves nothing exactly of reply prefixes. -/
theorem stripSubjectPrefixes_eq_nil (h : ∀ c ∈ s.head?, isSpace c = false) :
    stripSubjectPrefixes s.length s = [] ↔ OnlyPrefixes s := by
  have hnil : ∀ n, stripSubjectPrefixes n [] = [] := fun n =>
    stripSubjectPrefixes_of_none (by decide) n
  have hleaves : ∀ {s : JsString}, OnlyPrefixes s → ∀ n, s.length ≤ n →
      stripSubjectPrefixes n (trimStart s) = [] := by
    intro s h
    induction h with
    | blank h =>
        intro n _
        rw [show trimStart _ = [] from List.dropWhile_eq_nil_iff.mpr h, hnil]
    | @reply p s hp _ ih =>
        intro n hn
        have hpos := List.length_pos_iff.mpr hp.ne_nil
        rw [List.length_append] at hn
        obtain ⟨n, rfl⟩ : ∃ k, n = k + 1 := ⟨n - 1, by omega⟩
        have hstrip := stripSubjectPrefix_eq_some.mpr ⟨p, s, hp, rfl, rfl⟩
        rw [stripSubjectPrefixes, stripSubjectPrefix_trimStart, hstrip]
        exact ih n (by omega)
  constructor
  · generalize s.length = n
    clear h
    intro h
    induction n generalizing s with
    | zero =>
        rw [show s = [] from h]
        exact .blank (by simp)
    | succ n ih =>
        rw [stripSubjectPrefixes] at h
        split at h
        next =>
          rw [h]
          exact .blank (by simp)
        next rest hstrip =>
          obtain ⟨p, t, hp, rfl, rfl⟩ := stripSubjectPrefix_eq_some.mp hstrip
          rw [← takeWhile_append_trimStart t, ← List.append_assoc]
          exact .reply (hp.append_space fun c hc => isSpace_of_mem_takeWhile hc) (ih h)
  · intro honly
    have hend := hleaves honly s.length le_rfl
    rwa [trimStart_eq h] at hend

/-! ### Subjects -/

/-- What `normalizeSubject` gives a trimmed subject without a reply prefix. -/
theorem normalizeSubject_eq (ht : Trimmed s) (hn : stripSubjectPrefix s = none) :
    normalizeSubject s = s := by
  unfold normalizeSubject
  dsimp only
  rw [ht.trim, stripSubjectPrefixes_of_none hn]
  split
  · rfl
  · rfl

theorem isReplyPrefix_re :
    IsReplyPrefix (js "Re: ") := ⟨[], js "Re", [], [32], rfl, by decide, by simp [isSpace]⟩

theorem trimmed_reply (ht : Trimmed s) (hne : s ≠ []) : Trimmed (js "Re: " ++ s) where
  head c hc := by
    rw [show js "Re: " ++ s = 82 :: (js "e: " ++ s) from rfl, List.head?_cons,
      Option.mem_some_iff] at hc
    rw [← hc]
    rfl
  last c hc := by
    rw [List.getLast?_append_of_ne_nil _ hne] at hc
    exact ht.last c hc

/-- The subject of a reply gives what was replied to. -/
theorem normalizeSubject_reply (ht : Trimmed s) (hn : stripSubjectPrefix s = none) (hne : s ≠ []) :
    normalizeSubject (js "Re: " ++ s) = s := by
  have hstrip : stripSubjectPrefix (js "Re: " ++ s) = some s := by
    rw [stripSubjectPrefix_eq_some.mpr ⟨_, s, isReplyPrefix_re, rfl, rfl⟩, trimStart_eq ht.head]
  have hloop : stripSubjectPrefixes (js "Re: " ++ s).length (js "Re: " ++ s) = s := by
    rw [show (js "Re: " ++ s).length = (s.length + 3) + 1 by
      simp [js], stripSubjectPrefixes, hstrip]
    exact stripSubjectPrefixes_of_none hn _
  unfold normalizeSubject
  dsimp only
  rw [(trimmed_reply ht hne).trim, hloop, if_neg (by simpa using hne)]

/-- A subject that says something: its words are trimmed and start with no reply prefix. -/
theorem normalizeSubject_cases (s : JsString) :
    (OnlyPrefixes (trim s) ∧ normalizeSubject s = trim s) ∨
      (¬OnlyPrefixes (trim s) ∧ normalizeSubject s ≠ [] ∧ Trimmed (normalizeSubject s) ∧
        stripSubjectPrefix (normalizeSubject s) = none) := by
  have htrimmed := trimmed_trim s
  have hnil := stripSubjectPrefixes_eq_nil htrimmed.head
  unfold normalizeSubject
  dsimp only
  by_cases hempty : stripSubjectPrefixes (trim s).length (trim s) = []
  · refine .inl ⟨hnil.mp hempty, ?_⟩
    rw [hempty]
    rfl
  · refine .inr ⟨fun h => hempty (hnil.mpr h), ?_⟩
    rw [if_neg (by simpa using hempty)]
    obtain ⟨hsuffix, hhead⟩ := stripSubjectPrefixes_suffix (trim s).length htrimmed.head
    refine ⟨hempty, ⟨hhead, fun c hc => htrimmed.last c ?_⟩, (stripSubjectPrefixes_ends le_rfl).1⟩
    obtain ⟨t, ht⟩ := hsuffix
    rw [← ht, List.getLast?_append_of_ne_nil _ hempty]
    exact hc

/-- A reply to a subject of reply prefixes alone has one prefix more. -/
theorem normalizeSubject_reply_ne (h : OnlyPrefixes (trim s)) :
    normalizeSubject (js "Re: " ++ trim s) ≠ trim s := by
  intro heq
  by_cases hempty : trim s = []
  · rw [hempty, List.append_nil] at heq
    exact absurd heq (by decide)
  · have htrimmed := trimmed_reply (trimmed_trim s) hempty
    rcases normalizeSubject_cases (js "Re: " ++ trim s) with ⟨-, hreply⟩ | ⟨hnot, -⟩
    · rw [hreply, htrimmed.trim] at heq
      have hlength := congrArg List.length heq
      rw [List.length_append] at hlength
      have hpos : (js "Re: ").length = 4 := rfl
      omega
    · rw [htrimmed.trim] at hnot
      exact hnot (.reply isReplyPrefix_re h)

theorem normalizeSubject_idem (s : JsString) :
    normalizeSubject (normalizeSubject s) = normalizeSubject s := by
  rcases normalizeSubject_cases s with ⟨honly, heq⟩ | ⟨-, -, htrimmed, hnone⟩
  · rcases normalizeSubject_cases (trim s) with ⟨-, heq'⟩ | ⟨hnot, -⟩
    · rw [heq, heq', trim_trim]
    · rw [trim_trim] at hnot
      exact absurd honly hnot
  · exact normalizeSubject_eq htrimmed hnone

/-- The loop ends and the normal form is one, whatever the subject.  A subject is kept by its
replies if and only if it does not consist of reply prefixes alone. -/
theorem subject_kept_iff (s : JsString) :
    (∀ n, (trim s).length ≤ n → stripSubjectPrefix (stripSubjectPrefixes n (trim s)) = none ∧
      stripSubjectPrefixes n (trim s) = stripSubjectPrefixes (trim s).length (trim s)) ∧
    normalizeSubject (normalizeSubject s) = normalizeSubject s ∧
    (SubjectKept s ↔ ¬OnlyPrefixes (trim s)) := by
  refine ⟨fun n hn => stripSubjectPrefixes_ends hn, normalizeSubject_idem s, fun hkept honly => ?_,
    fun hnot => ?_⟩
  · -- the reply has a prefix more
    rcases normalizeSubject_cases s with ⟨-, heq⟩ | ⟨hnot, -⟩
    · have hreply := hkept.reply
      rw [createReplySubject, heq] at hreply
      exact normalizeSubject_reply_ne honly hreply
    · exact hnot honly
  · rcases normalizeSubject_cases s with ⟨honly, -⟩ | ⟨-, hne, htrimmed, hnone⟩
    · exact absurd honly hnot
    · have hreply : normalizeSubject (createReplySubject s) = normalizeSubject s :=
        normalizeSubject_reply htrimmed hnone hne
      refine ⟨fun n hn => stripSubjectPrefixes_ends hn, normalizeSubject_idem s, hreply, ?_⟩
      rw [createReplySubject, hreply, ← createReplySubject]

/-- A reply to a subject that is a prefix alone has another subject. -/
theorem subject_drifts : ¬∀ s, SubjectKept s := by
  intro hkept
  have hreply := (hkept (js "Re:")).reply
  exact absurd hreply (by decide)

end ResendConversation
