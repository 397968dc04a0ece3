import ResendConversation.LetterCase
import ResendConversation.Tokens
import ResendConversation.UniqueLists

/-! # The routing address codec

`buildConversationReplyTo` writes a routing token and a base mailbox into one address;
`extractRoutingCandidates` and `extractRoutingTokens` read them back from recipients that the
sender chose.  Both readers find the separators from opposite ends.  They agree because the parts
of a base mailbox do not contain them: `MailboxParts.Valid`.  An address of this form is
`MailboxParts.tagged`, and each reader succeeds exactly on the recipients that trimming and
lower-casing turn into one. -/

namespace ResendConversation

open JsString

/-! ### Last occurrences -/

theorem find?_reverse_range {p : ℕ → Bool} {k i : ℕ} :
    ((List.range k).reverse).find? p = some i ↔
      i < k ∧ p i = true ∧ ∀ j, i < j → j < k → p j = false := by
  induction k with
  | zero => simp
  | succ k ih =>
      rw [List.range_succ, List.reverse_append, List.reverse_singleton, List.singleton_append]
      cases hk : p k with
      | true =>
          rw [List.find?_cons_of_pos hk, Option.some.injEq]
          constructor
          · rintro rfl
            exact ⟨Nat.lt_succ_self k, hk, fun j hj hlt => by omega⟩
          · rintro ⟨hi, -, hlast⟩
            by_contra hne
            have hnot := hlast k (by omega) (Nat.lt_succ_self k)
            rw [hk] at hnot
            cases hnot
      | false =>
          rw [List.find?_cons_of_neg (by simp [hk]), ih]
          constructor
          · rintro ⟨hi, hp, hlast⟩
            refine ⟨Nat.lt_succ_of_lt hi, hp, fun j hj hlt => ?_⟩
            rcases Nat.lt_succ_iff_lt_or_eq.mp hlt with hlt | rfl
            · exact hlast j hj hlt
            · exact hk
          · rintro ⟨hi, hp, hlast⟩
            have hne : i ≠ k := by
              rintro rfl
              rw [hk] at hp
              cases hp
            exact ⟨by omega, hp, fun j hj hlt => hlast j hj (Nat.lt_succ_of_lt hlt)⟩

theorem lastIndexOf_eq_some {s needle : JsString} {position i : ℕ} :
    lastIndexOf s needle position = some i ↔ (i ≤ position ∧ i ≤ s.length) ∧ needle <+: s.drop i ∧
      ∀ j, i < j → j ≤ position → j ≤ s.length → ¬needle <+: s.drop j := by
  rw [lastIndexOf, find?_reverse_range, Nat.lt_succ_iff, Nat.le_min, List.isPrefixOf_iff_prefix]
  refine and_congr_right fun _ => and_congr_right fun _ => forall₂_congr fun j _ => ?_
  rw [Nat.lt_succ_iff, Nat.le_min, ← Bool.not_eq_true, List.isPrefixOf_iff_prefix, and_imp]

/-- A character is at most at the place that is found, and not after it. -/
theorem lastIndexOf_char {a b : JsString} {c : UInt16} (h : c ∉ b) :
    lastIndexOf (a ++ c :: b) [c] (a ++ c :: b).length = some a.length := by
  refine lastIndexOf_eq_some.mpr ⟨⟨by simp, by simp⟩, ⟨b, by simp⟩, fun j hj _ _ hbegins => ?_⟩
  obtain ⟨k, rfl⟩ := Nat.exists_eq_add_of_lt hj
  have hdrop : (a ++ c :: b).drop (a.length + k + 1) = b.drop k := by
    rw [List.drop_append]
    simp [Nat.add_assoc]
  rw [hdrop] at hbegins
  exact h (List.mem_of_mem_drop (hbegins.subset (List.mem_singleton_self c)))

theorem eq_of_lastIndexOf_char {s : JsString} {c : UInt16} {i : ℕ}
    (h : lastIndexOf s [c] s.length = some i) :
    s = s.take i ++ c :: s.drop (i + 1) ∧ c ∉ s.drop (i + 1) ∧ i < s.length := by
  obtain ⟨⟨-, hle⟩, ⟨r, hr⟩, hlast⟩ := lastIndexOf_eq_some.mp h
  have hlt : i < s.length := by
    by_contra hge
    rw [List.drop_eq_nil_of_le (by omega)] at hr
    cases hr
  have hrest : s.drop (i + 1) = r := by
    rw [← List.drop_drop, ← hr]
    rfl
  refine ⟨?_, fun hmem => ?_, hlt⟩
  · rw [hrest]
    exact ((congrArg (s.take i ++ ·) hr).trans (List.take_append_drop i s)).symm
  · obtain ⟨k, hk, hget⟩ := List.mem_iff_getElem.mp hmem
    rw [List.length_drop] at hk
    refine hlast (i + 1 + k) (by omega) (by omega) (by omega) ⟨s.drop (i + 1 + k + 1), ?_⟩
    rw [List.getElem_drop] at hget
    rw [List.drop_eq_getElem_cons (show i + 1 + k < s.length by omega), hget]
    rfl

/-! ### Base mailboxes -/

namespace MailboxParts
variable (p : MailboxParts)

/-- The base address. -/
def address : JsString := p.localPart ++ 64 :: p.domain

/-- The base address with a token in its local part. -/
def tagged (token : JsString) : JsString :=
  p.localPart ++ [43] ++ routingTagPrefix ++ token ++ [64] ++ p.domain

/-- What `parseBaseMailbox` has checked of the parts it returns. -/
structure Valid : Prop where
  nonempty : p.localPart ≠ []
  untagged : 43 ∉ p.localPart
  separated : 64 ∉ p.domain
  localLength : p.localPart.length + 1 + routingTagPrefix.length + routingTokenLength ≤ 64
  totalLength :
    p.localPart.length + 1 + routingTagPrefix.length + routingTokenLength +
      p.domain.length + 1 ≤ 254

end MailboxParts

variable {lower : JsString → JsString} {u : CaseData}

theorem parseBaseMailbox_eq_some {s : JsString} {p : MailboxParts}
    (h : parseBaseMailbox lower s = some p) :
    lower (trim s) = p.address ∧ p.Valid := by
  simp only [parseBaseMailbox] at h
  cases hindex : lastIndexOf (lower (trim s)) [64] (lower (trim s)).length with
  | none =>
      rw [hindex] at h
      cases h
  | some index =>
      rw [hindex] at h
      dsimp only at h
      obtain ⟨hsplit, hseparated, hlt⟩ := eq_of_lastIndexOf_char hindex
      split at h
      · cases h
      next hfirst =>
        split at h
        · cases h
        next hsecond =>
          cases h
          simp only [not_or] at hfirst hsecond
          obtain ⟨hzero, -, -, -, hplus⟩ := hfirst
          obtain ⟨-, -, -, -, hlocal, -, -, -, htotal⟩ := hsecond
          refine ⟨hsplit, ⟨fun hnil => ?_, by simpa using hplus, hseparated,
            Nat.le_of_not_lt hlocal, Nat.le_of_not_lt htotal⟩⟩
          have hlength := congrArg List.length hnil
          rw [List.length_take, Nat.min_eq_left hlt.le] at hlength
          exact hzero hlength

/-- Only the trimmed and lower-cased address decides. -/
theorem parseBaseMailbox_congr {s t : JsString} (h : lower (trim s) = lower (trim t)) :
    parseBaseMailbox lower s = parseBaseMailbox lower t := by
  unfold parseBaseMailbox
  rw [h]

/-- The parts of a base mailbox are its own base mailbox. -/
theorem parseBaseMailbox_address {s : JsString} {p : MailboxParts}
    (h : parseBaseMailbox u.toLowerCase s = some p) :
    parseBaseMailbox u.toLowerCase p.address = some p := by
  have haddress := (parseBaseMailbox_eq_some h).1
  have htrim : trim p.address = p.address := by
    rw [← haddress]
    exact (CaseData.trimmed_toLowerCase.mpr (trimmed_trim s)).trim
  rw [← h]
  refine parseBaseMailbox_congr ?_
  rw [htrim, ← haddress, CaseData.toLowerCase_toLowerCase]

/-! ### Tokens -/

theorem isRoutingToken_length {token : JsString} (h : isRoutingToken token = true) :
    token.length = 32 := by
  rw [isRoutingToken, Bool.and_eq_true, beq_iff_eq] at h
  exact h.1

theorem isRoutingToken_mem {token : JsString} (h : isRoutingToken token = true) {c : UInt16}
    (hc : c ∈ token) :
    (48 ≤ c.toNat ∧ c.toNat ≤ 57) ∨ (97 ≤ c.toNat ∧ c.toNat ≤ 102) := by
  rw [isRoutingToken, Bool.and_eq_true, List.all_eq_true] at h
  have hchar := h.2 c hc
  simpa [isDigit, UInt16.le_iff_toNat_le] using hchar

/-! ### Tagged addresses -/

namespace MailboxParts
variable {p q : MailboxParts}

/-- The parts are determined by the address. -/
theorem address_injective (hp : 64 ∉ p.domain) (hq : 64 ∉ q.domain) (h : p.address = q.address) :
    p = q := by
  have hlength : p.localPart.length = q.localPart.length := by
    have hindex := lastIndexOf_char hp (a := p.localPart)
    have hindex' := lastIndexOf_char hq (a := q.localPart)
    rw [address, address] at h
    rw [h, hindex', Option.some.injEq] at hindex
    exact hindex.symm
  obtain ⟨hlocal, hrest⟩ := List.append_inj h hlength
  cases p
  cases q
  cases hlocal
  cases hrest
  rfl

theorem tagged_eq (token : JsString) :
    p.tagged token = (p.localPart ++ 43 :: (routingTagPrefix ++ token)) ++ 64 :: p.domain := by
  simp [tagged]

/-- The at sign of a tagged address. -/
theorem lastIndexOf_at (hp : p.Valid) (token : JsString) :
    lastIndexOf (p.tagged token) [64] (p.tagged token).length =
      some (p.localPart ++ 43 :: (routingTagPrefix ++ token)).length := by
  rw [tagged_eq]
  exact lastIndexOf_char hp.separated

theorem length_tagged_local {token : JsString} (htoken : isRoutingToken token = true) :
    (p.localPart ++ 43 :: (routingTagPrefix ++ token)).length = p.localPart.length + 35 := by
  have hbegins : routingTagPrefix.length = 2 := by decide
  simp [hbegins, isRoutingToken_length htoken]

/-- The marker of a tagged address: no plus sign stands between it and the at sign. -/
theorem lastIndexOf_marker {token : JsString} (htoken : isRoutingToken token = true) :
    lastIndexOf (p.tagged token) (43 :: routingTagPrefix)
      (p.localPart ++ 43 :: (routingTagPrefix ++ token)).length = some p.localPart.length := by
  have hlength := length_tagged_local htoken (p := p)
  have hmarker : p.tagged token =
      p.localPart ++ 43 :: (routingTagPrefix ++ (token ++ 64 :: p.domain)) := by
    simp [tagged]
  refine lastIndexOf_eq_some.mpr ⟨⟨by omega, ?_⟩, ?_, fun j hj hle _ hbegins => ?_⟩
  · rw [hmarker, List.length_append]
    omega
  · rw [hmarker, List.drop_left]
    exact ⟨token ++ 64 :: p.domain, rfl⟩
  · obtain ⟨k, rfl⟩ := Nat.exists_eq_add_of_lt hj
    have hk : k < 35 := by omega
    have hdrop : (p.tagged token).drop (p.localPart.length + k + 1) =
        (routingTagPrefix ++ token ++ [64]).drop k ++ p.domain := by
      rw [hmarker, List.drop_append, List.drop_eq_nil_of_le (by omega), List.nil_append,
        show p.localPart.length + k + 1 - p.localPart.length = k + 1 by omega, List.drop_succ_cons,
        ← List.drop_append_of_le_length]
      · simp
      · have : routingTagPrefix.length = 2 := by decide
        simp [this, isRoutingToken_length htoken]
        omega
    -- the character at the marker would be a plus sign
    have hne : (routingTagPrefix ++ token ++ [64]).drop k ≠ [] := by
      have : routingTagPrefix.length = 2 := by decide
      rw [Ne, List.drop_eq_nil_iff]
      simp [this, isRoutingToken_length htoken]
      omega
    rw [hdrop] at hbegins
    obtain ⟨c, r, hc⟩ := List.exists_cons_of_ne_nil hne
    rw [hc, List.cons_append] at hbegins
    obtain ⟨rfl, -⟩ := List.cons_prefix_cons.mp hbegins
    have hmem : (43 : UInt16) ∈ routingTagPrefix ++ token ++ [64] :=
      List.mem_of_mem_drop (by rw [hc]; exact List.mem_cons_self)
    rcases List.mem_append.mp hmem with hmem | hmem
    · rcases List.mem_append.mp hmem with hmem | hmem
      · exact absurd hmem (by decide)
      · have := isRoutingToken_mem htoken hmem
        simp at this
    · exact absurd hmem (by decide)

end MailboxParts

/-! ### Reading a recipient -/

/-- A recipient that trimming and lower-casing turn into a tagged address is read back. -/
theorem extractRoutingCandidate_tagged {p : MailboxParts} {token raw : JsString} (hp : p.Valid)
    (hbase : parseBaseMailbox lower p.address = some p) (htoken : isRoutingToken token = true)
    (hraw : lower (trim raw) = p.tagged token) :
    extractRoutingCandidate lower raw = some ⟨hyphenate token, p.address⟩ := by
  have hindex := MailboxParts.lastIndexOf_at hp token
  have hmarker := MailboxParts.lastIndexOf_marker htoken (p := p)
  have hlength := MailboxParts.length_tagged_local htoken (p := p)
  have hbegins : routingTagPrefix.length = 2 := by decide
  have hslice : slice (p.tagged token) (p.localPart.length + routingTagPrefix.length + 1)
      (p.localPart ++ 43 :: (routingTagPrefix ++ token)).length = token := by
    have hshape : p.tagged token = (p.localPart ++ 43 :: routingTagPrefix) ++
        (token ++ 64 :: p.domain) := by
      simp [MailboxParts.tagged]
    have hstart : p.localPart.length + routingTagPrefix.length + 1 =
        (p.localPart ++ 43 :: routingTagPrefix).length := by
      simp
      omega
    rw [slice, hlength, hstart, hshape, List.drop_left]
    refine List.take_left' ?_
    rw [isRoutingToken_length htoken, List.length_append, List.length_cons, hbegins]
    omega
  have haddress : (p.tagged token).take p.localPart.length ++ [64] ++
      (p.tagged token).drop ((p.localPart ++ 43 :: (routingTagPrefix ++ token)).length + 1) =
        p.address := by
    have htake : (p.tagged token).take p.localPart.length = p.localPart := by
      simp [MailboxParts.tagged]
    have hdrop :
        (p.tagged token).drop ((p.localPart ++ 43 :: (routingTagPrefix ++ token)).length + 1) =
        p.domain := by
      rw [MailboxParts.tagged_eq, ← List.drop_drop, List.drop_left]
      rfl
    rw [htake, hdrop, MailboxParts.address, List.append_assoc]
    rfl
  simp only [extractRoutingCandidate, hraw, hindex, hmarker, hslice, haddress, hbase]
  rw [if_neg]
  simpa [htoken] using hp.nonempty

/-- An address around the last at sign and the marker before it, when a token fills the space
between them. -/
theorem eq_tagged {address : JsString} {index marker : ℕ}
    (hindex : lastIndexOf address [64] address.length = some index)
    (hmarker : lastIndexOf address (43 :: routingTagPrefix) index = some marker)
    (htoken : isRoutingToken (slice address (marker + routingTagPrefix.length + 1) index) = true) :
    address = MailboxParts.tagged ⟨address.take marker, address.drop (index + 1)⟩
      (slice address (marker + routingTagPrefix.length + 1) index) := by
  obtain ⟨hsplit, -, hlt⟩ := eq_of_lastIndexOf_char hindex
  obtain ⟨-, ⟨rest, hrest⟩, -⟩ := lastIndexOf_eq_some.mp hmarker
  have hthird : marker + routingTagPrefix.length + 1 = marker + 3 := rfl
  rw [hthird] at htoken ⊢
  have hindex35 : index = marker + 35 := by
    have hlength := isRoutingToken_length htoken
    rw [slice, List.length_take, List.length_drop] at hlength
    omega
  have hrest' : address.drop (marker + 3) = rest := by
    rw [← List.drop_drop, ← hrest]
    rfl
  have htail : address.drop index = 64 :: address.drop (index + 1) := by
    have hlength : (address.take index).length = index := by
      rw [List.length_take, Nat.min_eq_left hlt.le]
    have hleft : (address.take index ++ 64 :: address.drop (index + 1)).drop
        (address.take index).length = 64 :: address.drop (index + 1) := List.drop_left
    rw [hlength, ← hsplit] at hleft
    exact hleft
  have htaken : slice address (marker + 3) index ++ address.drop index =
      address.drop (marker + 3) := by
    have hdropped : (address.drop (marker + 3)).drop (index - (marker + 3)) =
        address.drop index := by
      rw [List.drop_drop]
      congr 1
      omega
    rw [slice, ← hdropped]
    exact List.take_append_drop _ _
  calc address = address.take marker ++ address.drop marker :=
    (List.take_append_drop marker address).symm
    _ = address.take marker ++ 43 :: (routingTagPrefix ++ (slice address (marker + 3) index ++
          64 :: address.drop (index + 1))) := by
        rw [← hrest, ← htail, htaken, hrest']
        rfl
    _ = MailboxParts.tagged ⟨address.take marker, address.drop (index + 1)⟩
          (slice address (marker + 3) index) := by
        simp [MailboxParts.tagged]

theorem not_surrogate {c : UInt16} (h : c.toNat < 0xD800) : ¬IsLead c.toNat ∧ ¬IsTrail c.toNat := by
  unfold IsLead IsTrail
  omega

/-- The base of a lower-cased tagged address is lower-cased. -/
theorem MailboxParts.lowered_address {p : MailboxParts} {token : JsString}
    (h : u.Lowered (codePoints (p.tagged token))) : u.Lowered (codePoints p.address) := by
  have hshape : p.tagged token =
      p.localPart ++ 43 :: (routingTagPrefix ++ token ++ 64 :: p.domain) := by
    simp [MailboxParts.tagged]
  rw [hshape, CaseData.lowered_append_cons (not_surrogate (by decide)),
    CaseData.lowered_append_cons (not_surrogate (by decide))] at h
  rw [MailboxParts.address, CaseData.lowered_append_cons (not_surrogate (by decide))]
  exact ⟨h.1, h.2.2.2⟩

/-- A tagged address starts and ends as its base does. -/
theorem MailboxParts.trimmed_tagged {p : MailboxParts} {token : JsString} (hne : p.localPart ≠ []) :
    Trimmed (p.tagged token) ↔ Trimmed p.address := by
  have hhead : (p.tagged token).head? = p.address.head? := by
    obtain ⟨c, l, hc⟩ := List.exists_cons_of_ne_nil hne
    simp [MailboxParts.tagged, MailboxParts.address, hc]
  have hlast : (p.tagged token).getLast? = p.address.getLast? := by
    rw [MailboxParts.tagged_eq, MailboxParts.address,
      List.getLast?_append_of_ne_nil _ (List.cons_ne_nil _ _),
      List.getLast?_append_of_ne_nil _ (List.cons_ne_nil _ _)]
  constructor
  · exact fun h => ⟨fun c hc => h.head c (hhead ▸ hc), fun c hc => h.last c (hlast ▸ hc)⟩
  · exact fun h => ⟨fun c hc => h.head c (hhead ▸ hc), fun c hc => h.last c (hlast ▸ hc)⟩

/-- Only such recipients yield a candidate. -/
theorem extractRoutingCandidate_eq_some {raw : JsString} {c : RoutingCandidate}
    (h : extractRoutingCandidate u.toLowerCase raw = some c) :
    ∃ p token, p.Valid ∧ parseBaseMailbox u.toLowerCase p.address = some p ∧
      isRoutingToken token = true ∧
      u.toLowerCase (trim raw) = p.tagged token ∧ c = ⟨hyphenate token, p.address⟩ := by
  have hlowered := CaseData.lowered_toLowerCase (u := u) (trim raw)
  have htrimmed := CaseData.trimmed_toLowerCase (u := u) |>.mpr (trimmed_trim raw)
  simp only [extractRoutingCandidate] at h
  generalize u.toLowerCase (trim raw) = address at *
  cases hindex : lastIndexOf address [64] address.length with
  | none =>
      rw [hindex] at h
      cases h
  | some index =>
      rw [hindex] at h
      dsimp only at h
      cases hmarker : lastIndexOf address (43 :: routingTagPrefix) index with
      | none =>
          rw [hmarker] at h
          cases h
      | some marker =>
          rw [hmarker] at h
          dsimp only at h
          split at h
          · cases h
          next hchecks =>
            cases h
            simp only [not_or, not_not] at hchecks
            obtain ⟨-, hpositive, htoken, hbase⟩ := hchecks
            have hshape := eq_tagged hindex hmarker htoken
            have hseparated := (eq_of_lastIndexOf_char hindex).2.1
            have hnonempty : address.take marker ≠ [] := by
              intro hnil
              obtain ⟨⟨-, hle⟩, -⟩ := lastIndexOf_eq_some.mp hmarker
              have hlength := congrArg List.length hnil
              rw [List.length_take, Nat.min_eq_left hle] at hlength
              exact hpositive hlength
            obtain ⟨q, hq⟩ := Option.ne_none_iff_exists'.mp hbase
            generalize slice address (marker + routingTagPrefix.length + 1) index = token at *
            generalize address.drop (index + 1) = domain at *
            generalize address.take marker = localPart at *
            subst hshape
            have haddress : localPart ++ [64] ++ domain =
                MailboxParts.address ⟨localPart, domain⟩ := by
              simp [MailboxParts.address]
            rw [haddress] at hq ⊢
            obtain ⟨hqaddress, hqvalid⟩ := parseBaseMailbox_eq_some hq
            rw [((MailboxParts.trimmed_tagged hnonempty).mp htrimmed).trim,
              CaseData.toLowerCase_of_lowered (MailboxParts.lowered_address hlowered)] at hqaddress
            obtain rfl := MailboxParts.address_injective hseparated hqvalid.separated hqaddress
            exact ⟨_, token, hqvalid, hq, htoken, rfl, rfl⟩

theorem extractRoutingToken_tagged {p : MailboxParts} {token raw : JsString} (hp : p.Valid)
    (htoken : isRoutingToken token = true) (hraw : lower (trim raw) = p.tagged token) :
    extractRoutingToken lower p raw = some (hyphenate token) := by
  have htake : (p.tagged token).take (p.localPart ++ 43 :: (routingTagPrefix ++ token)).length =
      p.localPart ++ 43 :: (routingTagPrefix ++ token) := by
    rw [MailboxParts.tagged_eq, List.take_left]
  have hdrop :
      (p.tagged token).drop ((p.localPart ++ 43 :: (routingTagPrefix ++ token)).length + 1) =
      p.domain := by
    rw [MailboxParts.tagged_eq, ← List.drop_drop, List.drop_left]
    rfl
  have hrest : (p.localPart ++ 43 :: (routingTagPrefix ++ token)).drop
      (p.localPart ++ [43] ++ routingTagPrefix).length = token := by
    have hshape : p.localPart ++ 43 :: (routingTagPrefix ++ token) =
        (p.localPart ++ [43] ++ routingTagPrefix) ++ token := by simp
    rw [hshape, List.drop_left]
  simp only [extractRoutingToken, hraw, MailboxParts.lastIndexOf_at hp, htake, hdrop, hrest]
  rw [if_neg]
  simp [htoken]

theorem extractRoutingToken_eq_some {p : MailboxParts} {raw t : JsString}
    (h : extractRoutingToken lower p raw = some t) :
    ∃ token, isRoutingToken token = true ∧ lower (trim raw) = p.tagged token ∧
      t = hyphenate token := by
  simp only [extractRoutingToken] at h
  generalize lower (trim raw) = address at *
  cases hindex : lastIndexOf address [64] address.length with
  | none =>
      rw [hindex] at h
      cases h
  | some index =>
      rw [hindex] at h
      dsimp only at h
      split at h
      · cases h
      next hchecks =>
        cases h
        simp only [not_or, not_not] at hchecks
        obtain ⟨-, hdomain, hbegins, htoken⟩ := hchecks
        refine ⟨_, htoken, ?_, rfl⟩
        obtain ⟨token, hlocal⟩ := List.isPrefixOf_iff_prefix.mp hbegins
        rw [← hlocal, List.drop_left, MailboxParts.tagged]
        rw [(eq_of_lastIndexOf_char hindex).1, hdomain, ← hlocal]
        simp

/-- The tokens for a base mailbox are those of the candidates with its address. -/
theorem extractRoutingToken_eq {p : MailboxParts} (hp : p.Valid)
    (hbase : parseBaseMailbox u.toLowerCase p.address = some p) (raw : JsString) :
    extractRoutingToken u.toLowerCase p raw =
      ((extractRoutingCandidate u.toLowerCase raw).filter fun c => c.baseAddress == p.address).map
        RoutingCandidate.routingToken := by
  refine Option.ext fun t => ⟨fun h => ?_, fun h => ?_⟩
  · obtain ⟨token, htoken, hraw, rfl⟩ := extractRoutingToken_eq_some h
    rw [extractRoutingCandidate_tagged hp hbase htoken hraw]
    simp
  · obtain ⟨c, hc, rfl⟩ := Option.map_eq_some_iff.mp h
    obtain ⟨hc, haddress⟩ := Option.filter_eq_some_iff.mp hc
    obtain ⟨q, token, hq, -, htoken, hraw, rfl⟩ := extractRoutingCandidate_eq_some hc
    obtain rfl := MailboxParts.address_injective hq.separated hp.separated (by simpa using haddress)
    exact extractRoutingToken_tagged hp htoken hraw

/-! ### Writing an address -/

/-- The text of a UUID: 32 hexadecimal digits in five groups, in any letter case. -/
def IsUuidText (s : JsString) : Prop :=
  ∃ digits, isRoutingToken digits = true ∧
    (s.map fun c => if isUpperLetter c then c + 32 else c) = hyphenate digits

theorem mem_hyphenate {digits : JsString} {c : UInt16} (h : c ∈ hyphenate digits) :
    c = 45 ∨ c ∈ digits := by
  have hslice : ∀ i j, c ∈ slice digits i j → c ∈ digits := fun i j hc =>
    List.mem_of_mem_drop (List.mem_of_mem_take hc)
  have hdrop : c ∈ digits.drop 20 → c ∈ digits := List.mem_of_mem_drop
  simp only [hyphenate, join, List.mem_append, List.mem_singleton] at h
  grind

theorem IsUuidText.ascii {s : JsString} (h : IsUuidText s) : ∀ c ∈ s, c < 128 := by
  obtain ⟨digits, hdigits, hs⟩ := h
  intro c hc
  have hmem : (if isUpperLetter c then c + 32 else c) ∈ hyphenate digits := by
    rw [← hs]
    exact List.mem_map_of_mem (f := fun c => if isUpperLetter c then c + 32 else c) hc
  rw [UInt16.lt_iff_toNat_lt]
  split at hmem
  next hupper =>
    simp only [isUpperLetter, Bool.and_eq_true, decide_eq_true_eq, UInt16.le_iff_toNat_le] at hupper
    have : (90 : UInt16).toNat = 90 := rfl
    have : (128 : UInt16).toNat = 128 := rfl
    omega
  next =>
    rcases mem_hyphenate hmem with rfl | hmem
    · decide
    · have := isRoutingToken_mem hdigits hmem
      have : (128 : UInt16).toNat = 128 := rfl
      omega

/-- The token that `buildConversationReplyTo` writes for a UUID. -/
theorem toLowerCase_filter_uuid {s digits : JsString} (hdigits : isRoutingToken digits = true)
    (hascii : ∀ c ∈ s, c < 128)
    (hs : (s.map fun c => if isUpperLetter c then c + 32 else c) = hyphenate digits) :
    u.toLowerCase (s.filter (· != 45)) = digits := by
  rw [CaseData.toLowerCase_ascii fun c hc => hascii c (List.mem_of_mem_filter hc),
    ← filter_hyphenate (hyphen_notMem_of_isRoutingToken hdigits), ← hs, List.filter_map]
  congr 1
  refine List.filter_congr fun c _ => ?_
  by_cases hupper : isUpperLetter c = true
  · have hbounds : 65 ≤ c.toNat ∧ c.toNat ≤ 90 := by
      simpa [isUpperLetter, UInt16.le_iff_toNat_le] using hupper
    have hadd : (c + 32).toNat = c.toNat + 32 := by
      rw [UInt16.toNat_add]
      exact Nat.mod_eq_of_lt (by simp; omega)
    have hne : c ≠ 45 := by
      rintro rfl
      exact absurd hbounds.1 (by decide)
    have hne' : c + 32 ≠ 45 := by
      intro heq
      rw [heq] at hadd
      have : (45 : UInt16).toNat = 45 := rfl
      omega
    simp [hupper, bne_iff_ne.mpr hne, bne_iff_ne.mpr hne']
  · simp [hupper]

/-- The address of a base mailbox and a UUID. -/
theorem buildConversationReplyTo_eq {base token digits : JsString} {p : MailboxParts}
    (hbase : parseBaseMailbox u.toLowerCase base = some p) (hdigits : isRoutingToken digits = true)
    (hascii : ∀ c ∈ token, c < 128)
    (htoken : (token.map fun c => if isUpperLetter c then c + 32 else c) = hyphenate digits) :
    buildConversationReplyTo u.toLowerCase base token = some (p.tagged digits) := by
  unfold buildConversationReplyTo
  rw [toLowerCase_filter_uuid hdigits hascii htoken, hbase]
  exact if_pos hdigits

/-- A token from a candidate is a UUID in lower case. -/
theorem hyphenate_lower {digits : JsString} (hdigits : isRoutingToken digits = true) :
    (∀ c ∈ hyphenate digits, c < 128) ∧
      ((hyphenate digits).map fun c => if isUpperLetter c then c + 32 else c) =
        hyphenate digits := by
  have hchar : ∀ c ∈ hyphenate digits, c < 128 ∧ isUpperLetter c = false := by
    intro c hc
    rcases mem_hyphenate hc with rfl | hc
    · decide
    · have hmem := isRoutingToken_mem hdigits hc
      simp only [UInt16.lt_iff_toNat_lt, isUpperLetter, UInt16.le_iff_toNat_le]
      simp
      omega
  refine ⟨fun c hc => (hchar c hc).1, ?_⟩
  refine (List.map_congr_left fun c hc => ?_).trans (List.map_id _)
  simp [(hchar c hc).2]

/-- A tagged address is in lower case when its base is. -/
theorem toLowerCase_tagged {p : MailboxParts} {digits : JsString}
    (hdigits : isRoutingToken digits = true) (h : u.Lowered (codePoints p.address)) :
    u.toLowerCase (p.tagged digits) = p.tagged digits := by
  have hshape : p.tagged digits =
      p.localPart ++ 43 :: (routingTagPrefix ++ digits ++ 64 :: p.domain) := by
    simp [MailboxParts.tagged]
  have hplus : u.lowercaseMapping (43 : UInt16).toNat = [(43 : UInt16).toNat] :=
    u.ascii 43 (by decide)
  have htag : u.toLowerCase (routingTagPrefix ++ digits) = routingTagPrefix ++ digits := by
    have hchar : ∀ c ∈ routingTagPrefix ++ digits, c < 128 ∧ isUpperLetter c = false := by
      intro c hc
      rcases List.mem_append.mp hc with hc | hc
      · exact forall_mem_of_all (p := fun c => c < 128 ∧ isUpperLetter c = false) (by decide) c hc
      · have hmem := isRoutingToken_mem hdigits hc
        simp only [UInt16.lt_iff_toNat_lt, isUpperLetter, UInt16.le_iff_toNat_le]
        simp
        omega
    rw [CaseData.toLowerCase_ascii fun c hc => (hchar c hc).1]
    refine (List.map_congr_left fun c hc => ?_).trans (List.map_id _)
    simp [(hchar c hc).2]
  rw [MailboxParts.address, CaseData.lowered_append_cons (not_surrogate (by decide))] at h
  refine CaseData.toLowerCase_of_lowered ?_
  rw [hshape, CaseData.lowered_append_cons (not_surrogate (by decide)),
    CaseData.lowered_append_cons (not_surrogate (by decide))]
  exact ⟨h.1, hplus, htag ▸ CaseData.lowered_toLowerCase _, h.2⟩

/-! ### The codec -/

/-- The recipients that differ from an address in letter case and in the white space around
them. -/
def IsVariant (lower : JsString → JsString) (address raw : JsString) : Prop :=
  ∃ l s r, raw = l ++ s ++ r ∧ lower s = lower address ∧
    (∀ c ∈ l, isSpace c = true) ∧ ∀ c ∈ r, isSpace c = true

theorem extractRoutingCandidates_singleton {raw : JsString} {c : RoutingCandidate} :
    extractRoutingCandidate lower raw = some c ↔ extractRoutingCandidates lower [raw] = [c] := by
  unfold extractRoutingCandidates
  cases h : extractRoutingCandidate lower raw with
  | none => simp [h, unique]
  | some d => simp [h, unique]

/-- Every base mailbox and every UUID go through the codec and come back, from every variant of
the address; whatever a recipient list yields is what the recipients were written from; and the
reader for one base agrees with the reader for all. -/
theorem routing_codec (u : CaseData) :
    (∀ base token p, parseBaseMailbox u.toLowerCase base = some p → IsUuidText token →
      ∃ address localPart domain, buildConversationReplyTo u.toLowerCase base token = some address ∧
        address = localPart ++ 64 :: domain ∧ 64 ∉ domain ∧ localPart.length ≤ 64 ∧
          address.length ≤ 254 ∧
        ∀ raw, IsVariant u.toLowerCase address raw →
          extractRoutingCandidates u.toLowerCase [raw] =
            [⟨u.toLowerCase token, u.toLowerCase (trim base)⟩]) ∧
    (∀ recipients, ∀ c ∈ extractRoutingCandidates u.toLowerCase recipients,
      ∃ r ∈ recipients, extractRoutingCandidates u.toLowerCase [r] = [c]) ∧
    (∀ r c, extractRoutingCandidates u.toLowerCase [r] = [c] →
      buildConversationReplyTo u.toLowerCase c.baseAddress c.routingToken =
        some (u.toLowerCase (trim r))) ∧
    (∀ base p, parseBaseMailbox u.toLowerCase base = some p → ∀ recipients,
      extractRoutingTokens u.toLowerCase recipients base =
        some (((extractRoutingCandidates u.toLowerCase recipients).filter fun c =>
          c.baseAddress == u.toLowerCase (trim base)).map RoutingCandidate.routingToken) ∧
      ∀ tokens, extractRoutingTokens u.toLowerCase recipients base = some tokens →
        tokens.Nodup) := by
  refine ⟨?_, ?_, ?_, ?_⟩
  · intro base token p hbase htoken
    obtain ⟨haddress, hp⟩ := parseBaseMailbox_eq_some hbase
    have hself := parseBaseMailbox_address hbase
    obtain ⟨digits, hdigits, hlower⟩ := id htoken
    have hbuilt := buildConversationReplyTo_eq hbase hdigits htoken.ascii hlower
    have hlength := MailboxParts.length_tagged_local hdigits (p := p)
    have hbegins : routingTagPrefix.length = 2 := rfl
    have htotal := hp.totalLength
    have hlocal := hp.localLength
    have htokenLength : routingTokenLength = 32 := rfl
    refine ⟨_, _, p.domain, hbuilt, MailboxParts.tagged_eq digits, hp.separated, by omega, ?_, ?_⟩
    · rw [MailboxParts.tagged_eq, List.length_append, hlength, List.length_cons]
      omega
    · rintro raw ⟨l, s, r, rfl, hs, hl, hr⟩
      rw [toLowerCase_tagged hdigits (haddress ▸ CaseData.lowered_toLowerCase _)] at hs
      have htrimmed : Trimmed (p.tagged digits) := by
        rw [MailboxParts.trimmed_tagged hp.nonempty, ← haddress]
        exact CaseData.trimmed_toLowerCase.mpr (trimmed_trim base)
      have hs' : Trimmed s := CaseData.trimmed_toLowerCase.mp (hs ▸ htrimmed)
      have hne : s ≠ [] := by
        rintro rfl
        rw [show u.toLowerCase [] = [] from rfl, MailboxParts.tagged_eq] at hs
        simp at hs
      rw [← extractRoutingCandidates_singleton, extractRoutingCandidate_tagged hp hself hdigits
        (by rw [trim_surround hl hr hs' hne, hs]), haddress,
          CaseData.toLowerCase_ascii htoken.ascii, hlower]
  · intro recipients c hc
    obtain ⟨r, hr, hcandidate⟩ := List.mem_filterMap.mp (mem_unique.mp hc)
    exact ⟨r, hr, extractRoutingCandidates_singleton.mp hcandidate⟩
  · intro r c hc
    obtain ⟨p, digits, -, hbase, hdigits, hraw, rfl⟩ :=
      extractRoutingCandidate_eq_some (extractRoutingCandidates_singleton.mpr hc)
    obtain ⟨hascii, hlower⟩ := hyphenate_lower hdigits
    rw [hraw]
    exact buildConversationReplyTo_eq hbase hdigits hascii hlower
  · intro base p hbase recipients
    obtain ⟨haddress, hp⟩ := parseBaseMailbox_eq_some hbase
    have hself := parseBaseMailbox_address hbase
    have htokens : recipients.filterMap (extractRoutingToken u.toLowerCase p) =
        ((recipients.filterMap (extractRoutingCandidate u.toLowerCase)).filter fun c =>
          c.baseAddress == p.address).map RoutingCandidate.routingToken := by
      rw [List.filter_filterMap, List.map_filterMap]
      exact List.filterMap_congr fun r _ => extractRoutingToken_eq hp hself r
    have hinjective :
        ∀ a ∈ (recipients.filterMap (extractRoutingCandidate u.toLowerCase)).filter fun c =>
          c.baseAddress == p.address,
        ∀ b ∈ (recipients.filterMap (extractRoutingCandidate u.toLowerCase)).filter fun c =>
          c.baseAddress == p.address, a.routingToken = b.routingToken → a = b := by
      intro a ha b hb heq
      have ha := beq_iff_eq.mp (List.mem_filter.mp ha).2
      have hb := beq_iff_eq.mp (List.mem_filter.mp hb).2
      cases a
      cases b
      cases heq
      cases ha.trans hb.symm
      rfl
    constructor
    · rw [extractRoutingTokens, hbase, Option.map_some, htokens, unique_map hinjective,
        unique_filter, haddress]
      rfl
    · intro tokens htokens
      rw [extractRoutingTokens, hbase, Option.map_some, Option.some.injEq] at htokens
      exact htokens ▸ nodup_unique _

/-- A base address in mixed case and a recipient that another mail system has rewritten. -/
theorem routing_codec_reference :
    ∃ address, buildConversationReplyTo CaseData.reference.toLowerCase (js " Help@Mail.Example ")
        (js "0190A000-0000-7000-8000-00000000000F") = some address ∧
      extractRoutingCandidates CaseData.reference.toLowerCase
        [js " " ++ js "HELP+C_0190A00000007000800000000000000f@mail.EXAMPLE" ++ js "\t"] =
          [⟨js "0190a000-0000-7000-8000-00000000000f", js "help@mail.example"⟩] := by
  obtain ⟨address, _, _, hbuilt, -, -, -, -, hread⟩ := (routing_codec CaseData.reference).1
    (js " Help@Mail.Example ") (js "0190A000-0000-7000-8000-00000000000F")
      ⟨js "help", js "mail.example"⟩
    (by decide +kernel) ⟨js "0190a00000007000800000000000000f", by decide, by decide⟩
  have haddress : address = js "help+c_0190a00000007000800000000000000f@mail.example" :=
    Option.some.inj (hbuilt.symm.trans (by decide +kernel))
  subst haddress
  refine ⟨_, hbuilt, ?_⟩
  rw [hread _ ⟨js " ", _, js "\t", rfl, by decide +kernel, forall_mem_of_all (by decide),
    forall_mem_of_all (by decide)⟩]
  decide +kernel

end ResendConversation
