import ResendConversation.Normalization
import ResendConversation.Payload
import ResendConversation.RoutingCodec

/-! # Display names

`formatAddress` writes a mailbox for the provider and `parseAddress` reads one.  The writer quotes
a display name that is no phrase and escapes quotation marks and backslashes in it; the reader
removes the outer quotation marks only.  An address may contain angle brackets, which the reader
takes for the delimiters. -/

namespace ResendConversation

open JsString Json

/-- A mailbox that a send validator lets through. -/
inductive AcceptedMailbox (lower : JsString → JsString) : EmailIdentity → Prop
  | identity {value : Option Json} {fieldName : JsString} {replyTo : Bool}
      {identity : EmailIdentity}
      (ok : normalizeEmailIdentity lower value fieldName replyTo = .ok identity) :
        AcceptedMailbox lower identity
  | participant {value : Option Json} {input : CreateConversationInput}
      (ok : validateCreateBody value = .ok input) :
      AcceptedMailbox lower ⟨input.participant.email, input.participant.name⟩

/-- The mailboxes that are read back: an address that is not taken for a bracketed one, or an
address without angle brackets after a name that needs no escape and is on one line. -/
def ReadsBack (identity : EmailIdentity) : Prop :=
  match identity.name with
  | none => ¬∃ before inside, identity.address = before ++ 60 :: inside ++ [62] ∧ inside ≠ [] ∧
      ∀ c ∈ inside, isAngleBracket c = false
  | some name => (∀ c ∈ identity.address, isAngleBracket c = false) ∧
      ∀ c ∈ name, c ≠ 34 ∧ c ≠ 92 ∧ isLineTerminator c = false

/-! ### What the validators check -/

/-- The checks of a mailbox. -/
structure Mailable (identity : EmailIdentity) : Prop where
  address : isEmailAddress identity.address = true
  name : ∀ name, identity.name = some name → Trimmed name ∧ name ≠ []

theorem optionalText_trimmed {value : Option Json} {n : ℕ} {refused : UInt16 → Bool}
    {name : Option JsString} (h : optionalText value n refused = some name) :
    ∀ t, name = some t → Trimmed t ∧ t ≠ [] := by
  rintro t rfl
  obtain ⟨s, -, -, -, rfl, hne⟩ := optionalText_eq_some.mp h
  exact ⟨trimmed_trim s, hne⟩

theorem AcceptedMailbox.mailable {lower : JsString → JsString} {identity : EmailIdentity}
    (h : AcceptedMailbox lower identity) : Mailable identity := by
  cases h with
  | identity ok =>
      obtain ⟨_, -, -, haddress, -, hname⟩ := normalizeEmailIdentity_eq_ok.mp ok
      exact ⟨haddress, optionalText_trimmed hname⟩
  | participant ok =>
      simp only [validateCreateBody, Except.bind_eq_ok, orError_eq_ok, Except.pure_eq_ok,
        Option.filter_eq_some_iff] at ok
      obtain ⟨_, -, _, -, email, ⟨-, hemail⟩, name, hname, _, -, _, -, _, -, _, -, rfl⟩ := ok
      exact ⟨hemail, optionalText_trimmed hname⟩

/-! ### The reader -/

theorem isSpace_of_isLineTerminator {c : UInt16} (h : isLineTerminator c = true) :
    isSpace c = true := by
  simp only [isLineTerminator, Bool.or_eq_true, beq_iff_eq] at h
  rcases h with ((rfl | rfl) | rfl) | rfl <;> decide

theorem isAngleBracket_eq_false {c : UInt16} : isAngleBracket c = false ↔ c ≠ 60 ∧ c ≠ 62 := by
  simp [isAngleBracket]

theorem mem_trimEnd {s : JsString} {c : UInt16} (h : c ∈ trimEnd s) : c ∈ s := by
  rw [trimEnd, List.mem_reverse] at h
  exact List.mem_reverse.mp ((List.dropWhile_suffix isSpace).subset h)

theorem trimEnd_concat_space {s : JsString} (h : Trimmed s) : trimEnd (s ++ [32]) = s := by
  have hspace : isSpace 32 = true := by decide
  rw [trimEnd, List.reverse_append, List.reverse_singleton, List.singleton_append,
    List.dropWhile_cons_of_pos hspace, ← trimEnd, trimEnd_eq h.last]

/-- A value that ends in brackets is taken apart there, unless its name is on several lines. -/
theorem parseAddress_bracketed {before inside : JsString}
    (htrimmed : Trimmed (before ++ 60 :: inside ++ [62])) (hne : inside ≠ [])
    (hinside : ∀ c ∈ inside, isAngleBracket c = false) :
    parseAddress (before ++ 60 :: inside ++ [62]) =
      if (trimEnd before).any isLineTerminator then ⟨before ++ 60 :: inside ++ [62], none⟩
      else ⟨trim inside, orNull (stripQuotes (trim (trimEnd before)))⟩ := by
  have hopen : 60 ∉ inside := fun hmem => (isAngleBracket_eq_false.mp (hinside 60 hmem)).1 rfl
  have hclose : 62 ∉ inside := fun hmem => (isAngleBracket_eq_false.mp (hinside 62 hmem)).2 rfl
  have hlast : ((before ++ 60 :: inside ++ [62]).getLast? == some 62) = true := by
    rw [List.getLast?_concat]
    rfl
  have hdrop : (before ++ 60 :: inside).drop (before.length + 1) = inside := by
    rw [← List.drop_drop, List.drop_left]
    rfl
  have htake : (before ++ 60 :: inside).take before.length = before := List.take_left
  unfold parseAddress
  simp only [htrimmed.trim, hlast, if_true, List.dropLast_concat, lastIndexOf_char hopen,
    hdrop, htake]
  have hempty : inside.isEmpty = false := by simpa using hne
  have hcontains : inside.contains 62 = false := by simpa using hclose
  rw [hempty, hcontains, Bool.false_or, Bool.false_or]

/-- Any other value is an address. -/
theorem parseAddress_plain {s : JsString} (htrimmed : Trimmed s)
    (hplain : ¬∃ before inside, s = before ++ 60 :: inside ++ [62] ∧ inside ≠ [] ∧
      ∀ c ∈ inside, isAngleBracket c = false) : parseAddress s = ⟨s, none⟩ := by
  unfold parseAddress
  simp only [htrimmed.trim]
  split
  next hlast =>
    obtain ⟨inner, hinner⟩ : ∃ inner, s = inner ++ [62] := by
      exact List.getLast?_eq_some_iff.mp (by simpa using hlast)
    subst hinner
    rw [List.dropLast_concat]
    cases hindex : lastIndexOf inner [60] inner.length with
    | none => rfl
    | some i =>
        dsimp only
        obtain ⟨hsplit, hopen, -⟩ := eq_of_lastIndexOf_char hindex
        rw [if_pos]
        by_contra hcontra
        simp only [Bool.or_eq_true, not_or, Bool.not_eq_true, List.isEmpty_eq_false_iff,
          List.contains_eq_mem, decide_eq_false_iff_not] at hcontra
        refine hplain ⟨inner.take i, inner.drop (i + 1), by rw [← hsplit], hcontra.1.1,
          fun c hc => ?_⟩
        rw [isAngleBracket_eq_false]
        exact ⟨fun heq => hopen (heq ▸ hc), fun heq => hcontra.1.2 (heq ▸ hc)⟩
  · rfl

/-! ### The writer -/

/-- A name with its backslashes and quotation marks escaped. -/
def escapeName (name : JsString) : JsString :=
  replaceAll 34 (js "\\\"") (replaceAll 92 (js "\\\\") name)

/-- The text of a name in front of a bracketed address. -/
def nameText (name : JsString) : JsString :=
  if isDisplayNamePhrase name then name else 34 :: escapeName name ++ [34]

theorem formatAddress_name {address name : JsString} (hne : name ≠ []) :
    formatAddress address (some name) = (nameText name ++ [32]) ++ 60 :: address ++ [62] := by
  have hsome : (some name).bind orNull = some name := by
    rw [Option.bind_some, orNull, if_neg (by simpa using hne)]
  have hopen : js " <" = [32, 60] := rfl
  have hclose : js ">" = [62] := rfl
  have hquote : js "\"" = [34] := rfl
  have hquoted : js "\" <" = [34, 32, 60] := rfl
  unfold formatAddress nameText
  simp only [hsome]
  split
  · simp [hopen, hclose]
  · simp [hclose, hquote, hquoted, escapeName]

theorem escapeName_cons (c : UInt16) (name : JsString) :
    escapeName (c :: name) =
      (if c = 34 then [92, 34] else if c = 92 then [92, 92] else [c]) ++ escapeName name := by
  have hquote : js "\\\"" = [92, 34] := rfl
  have hbackslash : js "\\\\" = [92, 92] := rfl
  simp only [escapeName, replaceAll, List.flatMap_cons, List.flatMap_append, hquote, hbackslash]
  congr 1
  by_cases hslash : c = 92
  · subst hslash
    rfl
  · by_cases hquoted : c = 34
    · subst hquoted
      rfl
    · simp [hslash, hquoted]

theorem length_escapeName (name : JsString) : name.length ≤ (escapeName name).length := by
  induction name with
  | nil => exact le_rfl
  | cons c name ih =>
      rw [escapeName_cons, List.length_append, List.length_cons]
      split
      · rw [List.length_cons, List.length_singleton]
        omega
      · split
        · rw [List.length_cons, List.length_singleton]
          omega
        · rw [List.length_singleton]
          omega

/-- A name is its own escaped form when it has nothing to escape. -/
theorem escapeName_eq_self {name : JsString} : escapeName name = name ↔
    ∀ c ∈ name, c ≠ 34 ∧ c ≠ 92 := by
  induction name with
  | nil => simp [escapeName, replaceAll]
  | cons c name ih =>
      have hlength := length_escapeName name
      rw [escapeName_cons, List.forall_mem_cons, ← ih]
      by_cases hquoted : c = 34
      · rw [if_pos hquoted]
        constructor
        · intro heq
          have := congrArg List.length heq
          simp only [List.length_append, List.length_cons, List.length_nil] at this
          omega
        · exact fun h => absurd hquoted h.1.1
      · rw [if_neg hquoted]
        by_cases hslash : c = 92
        · rw [if_pos hslash]
          constructor
          · intro heq
            have := congrArg List.length heq
            simp only [List.length_append, List.length_cons, List.length_nil] at this
            omega
          · exact fun h => absurd hslash h.1.2
        · rw [if_neg hslash, List.singleton_append, List.cons.injEq]
          simp [hquoted, hslash]

theorem isAtomCharacter_plain {c : UInt16} (h : isAtomCharacter c = true ∨ c = 32) :
    c ≠ 34 ∧ c ≠ 92 ∧ isLineTerminator c = false := by
  refine ⟨?_, ?_, ?_⟩
  · rintro rfl
    revert h
    decide
  · rintro rfl
    revert h
    decide
  · by_contra hline
    rw [Bool.not_eq_false] at hline
    simp only [isLineTerminator, Bool.or_eq_true, beq_iff_eq] at hline
    rcases hline with ((rfl | rfl) | rfl) | rfl <;> revert h <;> decide

/-- The characters of a phrase need no escape. -/
theorem phrase_plain {name : JsString} (h : isDisplayNamePhrase name = true) :
    ∀ c ∈ name, c ≠ 34 ∧ c ≠ 92 ∧ isLineTerminator c = false := by
  intro c hc
  rw [isDisplayNamePhrase, List.all_eq_true] at h
  cases mem_split 32 hc with
  | inl heq => exact isAtomCharacter_plain (.inr heq)
  | inr hword =>
      obtain ⟨atom, hatom, hmem⟩ := hword
      have hall := h atom hatom
      rw [Bool.and_eq_true, List.all_eq_true] at hall
      exact isAtomCharacter_plain (.inl (hall.2 c hmem))

theorem stripQuotes_plain {s : JsString} (h : ∀ c ∈ s, c ≠ 34) : stripQuotes s = s := by
  have hhead : s.head? ≠ some 34 := fun hhead => h 34 (List.mem_of_mem_head? hhead) rfl
  have hlast : s.getLast? ≠ some 34 := fun hlast => h 34 (List.mem_of_mem_getLast? hlast) rfl
  unfold stripQuotes
  simp [hhead, hlast]

/-- What the reader makes of the text of a name. -/
theorem stripQuotes_nameText (name : JsString) :
    stripQuotes (nameText name) = if isDisplayNamePhrase name then name else escapeName name := by
  unfold nameText
  split
  next hphrase => exact stripQuotes_plain fun c hc => (phrase_plain hphrase c hc).1
  · unfold stripQuotes
    simp

/-! ### The round trip -/

theorem trimmed_nameText {name : JsString} (h : Trimmed name) : Trimmed (nameText name) := by
  unfold nameText
  split
  · exact h
  · refine ⟨fun c hc => ?_, fun c hc => ?_⟩
    · rw [List.cons_append, List.head?_cons, Option.mem_some_iff] at hc
      subst hc
      decide
    · rw [List.getLast?_concat, Option.mem_some_iff] at hc
      subst hc
      decide

theorem readsBack_none {address : JsString} (h : isEmailAddress address = true) :
    parseAddress (formatAddress address none) = ⟨address, none⟩ ↔ ReadsBack ⟨address, none⟩ := by
  have htrimmed := trimmed_emailAddress h
  constructor
  · rintro hread ⟨before, inside, hsplit, hne, hinside⟩
    have hread : parseAddress address = ⟨address, none⟩ := hread
    have hsplit : address = before ++ 60 :: inside ++ [62] := hsplit
    have hspaces : ∀ c ∈ address, isSpace c = false := by
      simp only [isEmailAddress, Bool.and_eq_true, Bool.not_eq_true', List.any_eq_false] at h
      intro c hc
      simpa using h.1.2 c hc
    have hline : (trimEnd before).any isLineTerminator = false := by
      rw [List.any_eq_false]
      intro c hc hline
      have hmem : c ∈ address := by
        rw [hsplit]
        exact List.mem_append_left _ (List.mem_append_left _ (mem_trimEnd hc))
      have hspace := isSpace_of_isLineTerminator hline
      rw [hspaces c hmem] at hspace
      cases hspace
    rw [hsplit, parseAddress_bracketed (hsplit ▸ htrimmed) hne hinside, hline] at hread
    have haddress : trim inside = before ++ 60 :: inside ++ [62] := congrArg Mailbox.address hread
    have hlength := congrArg List.length haddress
    have htrim := length_trim_le inside
    simp only [List.length_append, List.length_cons, List.length_nil] at hlength
    omega
  · exact parseAddress_plain htrimmed

theorem readsBack_some {address name : JsString} (hname : Trimmed name) (hne : name ≠ [])
    (haddress : isEmailAddress address = true) :
    parseAddress (formatAddress address (some name)) = ⟨address, some name⟩ ↔
      ReadsBack ⟨address, some name⟩ := by
  have htext := trimmed_nameText hname
  have hnonempty : nameText name ≠ [] := by
    unfold nameText
    split
    · exact hne
    · simp
  have htrimmed : Trimmed ((nameText name ++ [32]) ++ 60 :: address ++ [62]) := by
    refine ⟨fun c hc => htext.head c ?_, fun c hc => ?_⟩
    · obtain ⟨first, rest, hcons⟩ := List.exists_cons_of_ne_nil hnonempty
      rw [hcons] at hc ⊢
      exact hc
    · rw [List.getLast?_concat, Option.mem_some_iff] at hc
      subst hc
      decide
  have hbefore : trimEnd (nameText name ++ [32]) = nameText name := trimEnd_concat_space htext
  have hinside : address ≠ [] := by
    rintro rfl
    revert haddress
    decide
  rw [formatAddress_name hne]
  constructor
  · intro hread
    have hbrackets : ∀ c ∈ address, isAngleBracket c = false := by
      by_cases hform : ∃ before inside, (nameText name ++ [32]) ++ 60 :: address ++ [62] =
          before ++ 60 :: inside ++ [62] ∧ inside ≠ [] ∧ ∀ c ∈ inside, isAngleBracket c = false
      · obtain ⟨before, inside, heq, hinsideNe, hall⟩ := hform
        rw [heq, parseAddress_bracketed (heq ▸ htrimmed) hinsideNe hall] at hread
        split at hread
        · exact absurd (congrArg Mailbox.name hread) (by simp)
        · have htrim : trim inside = address := congrArg Mailbox.address hread
          exact fun c hc => hall c (trim_subset inside c (htrim ▸ hc))
      · rw [parseAddress_plain htrimmed hform] at hread
        exact absurd (congrArg Mailbox.name hread) (by simp)
    rw [parseAddress_bracketed htrimmed hinside hbrackets, hbefore, htext.trim,
      stripQuotes_nameText] at hread
    refine ⟨hbrackets, fun c hc => ?_⟩
    have hc : c ∈ name := hc
    split at hread
    · exact absurd (congrArg Mailbox.name hread) (by simp)
    next hline =>
      by_cases hphrase : isDisplayNamePhrase name = true
      · exact phrase_plain hphrase c hc
      · have hstripped :
            orNull (if isDisplayNamePhrase name then name else escapeName name) = some name :=
          congrArg Mailbox.name hread
        rw [if_neg hphrase] at hstripped
        have hself : escapeName name = name := (orNull_eq_some.mp hstripped).1
        obtain ⟨hquoted, hslash⟩ := escapeName_eq_self.mp hself c hc
        refine ⟨hquoted, hslash, ?_⟩
        rw [nameText, if_neg hphrase, hself, Bool.not_eq_true, List.any_eq_false] at hline
        simpa using hline c (by simp [hc])
  · rintro ⟨hbrackets, hplain⟩
    have hplain : ∀ c ∈ name, c ≠ 34 ∧ c ≠ 92 ∧ isLineTerminator c = false := hplain
    have hself : escapeName name = name :=
      escapeName_eq_self.mpr fun c hc => ⟨(hplain c hc).1, (hplain c hc).2.1⟩
    have hline : (nameText name).any isLineTerminator = false := by
      have hquote : isLineTerminator 34 = false := by decide
      rw [List.any_eq_false]
      intro c hc
      unfold nameText at hc
      split at hc
      · simp [(hplain c hc).2.2]
      · rw [hself] at hc
        cases List.mem_append.mp hc with
        | inl hc =>
            cases List.mem_cons.mp hc with
            | inl heq => simp [heq, hquote]
            | inr hc => simp [(hplain c hc).2.2]
        | inr hc => simp [List.mem_singleton.mp hc, hquote]
    rw [parseAddress_bracketed htrimmed hinside hbrackets, hbefore, htext.trim,
      stripQuotes_nameText, hself,
      hline, ite_self, (trimmed_emailAddress haddress).trim, orNull_eq_some.mpr ⟨rfl, hne⟩]
    rfl

/-- A mailbox that a validator lets through is read back exactly when its address is not taken for
brackets and its name needs no escape. -/
theorem mailbox_read_back_iff (lower : JsString → JsString) (identity : EmailIdentity)
    (h : AcceptedMailbox lower identity) :
    parseAddress (formatAddress identity.address identity.name) =
      ⟨identity.address, identity.name⟩ ↔ ReadsBack identity := by
  have hmailable := h.mailable
  obtain ⟨address, name⟩ := identity
  cases name with
  | none => exact readsBack_none hmailable.address
  | some name =>
      obtain ⟨htrimmed, hne⟩ := hmailable.name name rfl
      exact readsBack_some htrimmed hne hmailable.address

namespace Reference

/-- The sender of a request with this name. -/
def named (name : JsString) : Json :=
  .object [(js "address", .string (js "me@x.example")), (js "name", .string name)]

/-- A name with a quoted word. -/
def quotedName : JsString := js "Brayan \"Bookings\""

end Reference

/-- A name with quotation marks is not read back. -/
theorem mailbox_not_read_back :
    ¬∀ (lower : JsString → JsString) (identity : EmailIdentity), AcceptedMailbox lower identity →
      parseAddress (formatAddress identity.address identity.name) =
        ⟨identity.address, identity.name⟩ := by
  intro hread
  have haccepted : AcceptedMailbox id ⟨js "me@x.example", some Reference.quotedName⟩ :=
    @AcceptedMailbox.identity id (some (Reference.named Reference.quotedName)) (js "from") false _
      (by decide +kernel)
  have heq := hread id _ haccepted
  revert heq
  decide +kernel

theorem mailbox_read_back_reference :
    parseAddress (formatAddress (js "me@x.example") (some (js "Help, Desk"))) =
      ⟨js "me@x.example", some (js "Help, Desk")⟩ := by
  have haccepted : AcceptedMailbox id ⟨js "me@x.example", some (js "Help, Desk")⟩ :=
    @AcceptedMailbox.identity id (some (Reference.named (js "Help, Desk"))) (js "from") false
      _ (by decide +kernel)
  exact (mailbox_read_back_iff id ⟨js "me@x.example", some (js "Help, Desk")⟩ haccepted).mpr
    ⟨forall_mem_of_all (by decide), forall_mem_of_all (by decide)⟩

end ResendConversation
