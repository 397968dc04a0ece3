import ResendConversation.RoutingCodec
import ResendConversation.SendValidation

/-! # Request normalisation is canonical

Every part of a normalised value passes its own check and is left unchanged by it, so a
normalised value validates to itself.  Together with the JSON text of a value, which determines
it, this makes the preimage of a request hash a name for the request. -/

namespace ResendConversation

open JsString Json

/-! ### Checks that succeed -/

theorem Except.bind_eq_ok {ε α β : Type} {x : Except ε α} {f : α → Except ε β} {b : β} :
    (x >>= f) = .ok b ↔ ∃ a, x = .ok a ∧ f a = .ok b := by
  cases x with
  | ok a =>
      constructor
      · exact fun h => ⟨a, rfl, h⟩
      · rintro ⟨a', ha, h⟩
        cases ha
        exact h
  | error e =>
      constructor
      · intro h
        cases h
      · rintro ⟨a', ha, -⟩
        cases ha

theorem Except.pure_eq_ok {ε α : Type} {a b : α} : (pure a : Except ε α) = .ok b ↔ a = b :=
  Except.ok.injEq a b ▸ Iff.rfl

theorem Except.map_eq_ok {ε α β : Type} {x : Except ε α} {f : α → β} {b : β} :
    x.map f = .ok b ↔ ∃ a, x = .ok a ∧ f a = b := by
  cases x with
  | ok a => simp [Except.map]
  | error e => simp [Except.map]

theorem check_eq_ok {b : Bool} {error : JsString} {x : Unit} : check b error = .ok x ↔
    b = true := by
  cases b with
  | false => simp [check]
  | true => simp [check]

theorem orError_eq_ok {α : Type} {value : Option α} {error : JsString} {a : α} :
    orError value error = .ok a ↔ value = some a := by
  cases value with
  | none => simp [orError]
  | some b => simp [orError]

/-! ### Property access -/

section
variable {name key : String} {k : JsString} {v : Json} {ms : List (JsString × Json)}

theorem field_nil : field name (some (.object [])) = none := rfl

theorem field_cons_eq : field name (some (.object ((js name, v) :: ms))) = some v := by
  rw [field, List.find?_cons_of_pos (by simp)]
  rfl

theorem field_cons_ne (h : (js key == js name) = false) :
    field name (some (.object ((js key, v) :: ms))) = field name (some (.object ms)) := by
  rw [field, field, List.find?_cons_of_neg (by simp [h])]

theorem field_optional_eq {value : Option Json} :
    field name (some (.object (optionalMember name value ++ ms))) =
      value.or (field name (some (.object ms))) := by
  cases value with
  | none => rfl
  | some v => exact field_cons_eq

theorem field_optional_ne {value : Option Json} (h : (js key == js name) = false) :
    field name (some (.object (optionalMember key value ++ ms))) =
      field name (some (.object ms)) := by
  cases value with
  | none => rfl
  | some v => exact field_cons_ne h

theorem field_last_eq {value : Option Json} :
    field name (some (.object (optionalMember name value))) = value := by
  cases value with
  | none => rfl
  | some v => exact field_cons_eq

theorem field_last_ne {value : Option Json} (h : (js key == js name) = false) :
    field name (some (.object (optionalMember key value))) = none := by
  cases value with
  | none => rfl
  | some v => exact field_cons_ne h

end

/-! ### Texts -/

theorem length_trim_le (s : JsString) : (trim s).length ≤ s.length := by
  have hstart : (trimStart s).length ≤ s.length := (List.dropWhile_suffix isSpace).length_le
  have hend : (trim s).length ≤ (trimStart s).length := by
    have h := (List.dropWhile_suffix (l := (trimStart s).reverse) isSpace).length_le
    rw [List.length_reverse] at h
    rw [trim, trimEnd, List.length_reverse]
    exact h
  exact hend.trans hstart

theorem isHeaderSafeText_trim {s : JsString} {n : ℕ} (h : isHeaderSafeText s n = true) :
    isHeaderSafeText (trim s) n = true := by
  simp only [isHeaderSafeText, containsControlCharacter, Bool.and_eq_true, decide_eq_true_eq,
    Bool.not_eq_true', List.any_eq_false] at h ⊢
  exact ⟨(length_trim_le s).trans h.1, fun c hc => h.2 c (trim_subset s c hc)⟩

theorem orNull_eq_some {s t : JsString} : orNull s = some t ↔ s = t ∧ t ≠ [] := by
  unfold orNull
  cases s with
  | nil =>
      constructor
      · intro h
        cases h
      · rintro ⟨rfl, h⟩
        exact absurd rfl h
  | cons c s =>
      constructor
      · intro h
        cases h
        exact ⟨rfl, List.cons_ne_nil c s⟩
      · rintro ⟨rfl, -⟩
        rfl

theorem requiredText_eq_some {value : Option Json} {n : ℕ} {t : JsString} :
    requiredText value n = some t ↔
      ∃ s, value = some (.string s) ∧ isHeaderSafeText s n = true ∧ trim s = t ∧ t ≠ [] := by
  unfold requiredText
  split
  next s =>
    constructor
    · intro h
      split at h
      next hs =>
        cases h
        rw [Bool.and_eq_true] at hs
        exact ⟨s, rfl, hs.1, rfl, by simpa using hs.2⟩
      · cases h
    · rintro ⟨s', hs', hsafe, rfl, hne⟩
      cases hs'
      rw [if_pos]
      simp [hsafe, hne]
  next hnot =>
    constructor
    · intro h
      cases h
    · rintro ⟨s, rfl, -⟩
      exact absurd rfl (hnot s)

/-- A required text is left unchanged by its check. -/
theorem requiredText_canonical {value : Option Json} {n : ℕ} {t : JsString}
    (h : requiredText value n = some t) :
    requiredText (some (.string t)) n = some t := by
  obtain ⟨s, -, hsafe, rfl, hne⟩ := requiredText_eq_some.mp h
  exact requiredText_eq_some.mpr ⟨_, rfl, isHeaderSafeText_trim hsafe, trim_trim s, hne⟩

theorem optionalText_eq_some {value : Option Json} {n : ℕ} {refused : UInt16 → Bool}
    {t : JsString} :
    optionalText value n refused = some (some t) ↔
      ∃ s, value = some (.string s) ∧ isHeaderSafeText s n = true ∧ (∀ c ∈ s, refused c = false) ∧
        trim s = t ∧ t ≠ [] := by
  unfold optionalText
  split
  · simp
  · simp
  next s =>
    constructor
    · intro h
      split at h
      next hs =>
        rw [Bool.and_eq_true] at hs
        obtain ⟨heq, hne⟩ := orNull_eq_some.mp (Option.some.inj h)
        exact ⟨s, rfl, hs.1, by simpa using hs.2, heq, hne⟩
      · cases h
    · rintro ⟨s', hs', hsafe, hrefused, htrim, hne⟩
      cases hs'
      rw [if_pos, orNull_eq_some.mpr ⟨htrim, hne⟩]
      rw [Bool.and_eq_true]
      exact ⟨hsafe, by simpa using hrefused⟩
  next _ _ hstring =>
    constructor
    · intro h
      cases h
    · rintro ⟨s, rfl, -⟩
      exact absurd rfl (hstring s)

/-- An optional text is left unchanged by its check. -/
theorem optionalText_canonical {value : Option Json} {n : ℕ} {refused : UInt16 → Bool}
    {t : Option JsString} (h : optionalText value n refused = some t) :
    optionalText (some (nameJson t)) n refused = some t := by
  cases t with
  | none => rfl
  | some t =>
      obtain ⟨s, -, hsafe, hrefused, rfl, hne⟩ := optionalText_eq_some.mp h
      exact optionalText_eq_some.mpr ⟨_, rfl, isHeaderSafeText_trim hsafe,
        fun c hc => hrefused c (trim_subset s c hc), trim_trim s, hne⟩

theorem optionalSubject_canonical {value : Option Json} {t : Option JsString}
    (h : optionalSubject value = some t) : optionalSubject (t.map .string) = some t := by
  cases t with
  | none => rfl
  | some t =>
      unfold optionalSubject at h
      split at h
      · cases h
      next s =>
        split at h
        next hsafe =>
          obtain ⟨rfl, hne⟩ := orNull_eq_some.mp (Option.some.inj h)
          rw [Option.map_some, optionalSubject, if_pos (isHeaderSafeText_trim hsafe), trim_trim,
            orNull_eq_some.mpr ⟨rfl, hne⟩]
        · cases h
      · cases h

theorem bodyText_canonical (value : Option Json) :
    bodyText ((bodyText value).map .string) = bodyText value := by
  cases h : bodyText value with
  | none => rfl
  | some t =>
      obtain ⟨s, -, hs⟩ := Option.bind_eq_some_iff.mp h
      obtain ⟨rfl, hne⟩ := orNull_eq_some.mp hs
      exact orNull_eq_some.mpr ⟨rfl, hne⟩

theorem providedText_canonical {value : Option Json} {t : Option JsString}
    (h : providedText value = some t) :
    providedText (t.map .string) = some t := by
  cases t with
  | none => rfl
  | some t =>
      unfold providedText at h
      split at h
      · cases h
      · split at h
        · cases h
        next hne =>
          cases h
          exact if_neg hne
      · cases h

/-! ### Mailboxes -/

section
variable {u : CaseData}

/-- What an accepted mailbox is made of. -/
theorem normalizeEmailIdentity_eq_ok {lower : JsString → JsString} {value : Option Json}
    {fieldName : JsString} {replyTo : Bool} {identity : EmailIdentity} :
    normalizeEmailIdentity lower value fieldName replyTo = .ok identity ↔
      ∃ text, asString (field "address" value) = some text ∧ lower (trim text) = identity.address ∧
        isEmailAddress identity.address = true ∧
        (replyTo = true → isValidReplyToBaseAddress lower identity.address = true) ∧
        optionalText (field "name" value) maxNameLength isAngleBracket = some identity.name := by
  simp only [normalizeEmailIdentity, Except.bind_eq_ok, orError_eq_ok, check_eq_ok,
    Except.pure_eq_ok]
  constructor
  · rintro ⟨text, htext, _, hcheck, name, hname, rfl⟩
    rw [Bool.and_eq_true, Bool.or_eq_true, Bool.not_eq_true'] at hcheck
    refine ⟨text, htext, rfl, hcheck.1, fun hreply => ?_, hname⟩
    rcases hcheck.2 with hnot | hvalid
    · rw [hreply] at hnot
      cases hnot
    · exact hvalid
  · rintro ⟨text, htext, haddress, hemail, hreply, hname⟩
    refine ⟨text, htext, (), ?_, identity.name, hname, by rw [haddress]⟩
    rw [haddress, hemail, Bool.true_and]
    cases replyTo with
    | false => rfl
    | true => exact hreply rfl

/-- An accepted address holds no white space. -/
theorem trimmed_emailAddress {address : JsString} (h : isEmailAddress address = true) :
    Trimmed address := by
  simp only [isEmailAddress, Bool.and_eq_true, Bool.not_eq_true', List.any_eq_false] at h
  exact ⟨fun c hc => by simpa using h.1.2 c (List.mem_of_mem_head? hc),
    fun c hc => by simpa using h.1.2 c (List.mem_of_mem_getLast? hc)⟩

/-- An accepted mailbox is left unchanged by its check. -/
theorem normalizeEmailIdentity_canonical {value : Option Json} {fieldName fieldName' : JsString}
    {replyTo : Bool} {identity : EmailIdentity}
    (h : normalizeEmailIdentity u.toLowerCase value fieldName replyTo = .ok identity) :
    normalizeEmailIdentity u.toLowerCase (some identity.toJson) fieldName' replyTo =
      .ok identity := by
  obtain ⟨text, -, haddress, hemail, hreply, hname⟩ := normalizeEmailIdentity_eq_ok.mp h
  refine normalizeEmailIdentity_eq_ok.mpr ⟨identity.address, ?_, ?_, hemail, hreply, ?_⟩
  · rw [EmailIdentity.toJson, field_cons_eq]
    rfl
  · rw [(trimmed_emailAddress hemail).trim, ← haddress, CaseData.toLowerCase_toLowerCase]
  · rw [EmailIdentity.toJson, field_cons_ne (by decide), field_cons_eq]
    exact optionalText_canonical hname

/-! ### Lists -/

/-- Elements that their check leaves unchanged form a list that is left unchanged. -/
theorem forEntries_canonical {α : Type} (toJson : α → Json)
    (g : ℕ → Option Json → Except JsString α) {f : ℕ → Option Json → Except JsString α}
    (hf : ∀ i item a, f i item = .ok a → ∀ j, g j (some (toJson a)) = .ok a) :
    ∀ {i : ℕ} {items : List (Option Json)} {as : List α}, forEntries f i items = .ok as →
      as.length = items.length ∧ ∀ j, forEntries g j ((as.map toJson).map some) = .ok as
  | i, [], as, h => by
      cases h
      exact ⟨rfl, fun _ => rfl⟩
  | i, item :: items, as, h => by
      simp only [forEntries, Except.bind_eq_ok, Except.pure_eq_ok] at h
      obtain ⟨a, ha, rest, hrest, rfl⟩ := h
      obtain ⟨hlength, hcanonical⟩ := forEntries_canonical toJson g hf hrest
      refine ⟨congrArg (· + 1) hlength, fun j => ?_⟩
      simp only [List.map_cons, forEntries, Except.bind_eq_ok, Except.pure_eq_ok]
      exact ⟨a, hf i item a ha j, rest, hcanonical (j + 1), rfl⟩

theorem normalizeEmailIdentities_canonical {value : Option Json} {fieldName fieldName' : JsString}
    {identities : List EmailIdentity}
    (h : normalizeEmailIdentities u.toLowerCase value fieldName = .ok identities) :
    normalizeEmailIdentities u.toLowerCase (some (identitiesJson identities)) fieldName' =
      .ok identities := by
  have hlist : ∀ i items, forEntries (fun index item =>
        normalizeEmailIdentity u.toLowerCase item (elementName fieldName index) false) i items =
          .ok identities →
      items ≠ [] → items.length ≤ maxRecipients →
      normalizeEmailIdentities u.toLowerCase (some (identitiesJson identities)) fieldName' =
        .ok identities := by
    intro i items hitems hne hle
    obtain ⟨hlength, hcanonical⟩ := forEntries_canonical EmailIdentity.toJson
      (fun index item => normalizeEmailIdentity u.toLowerCase item
        (elementName fieldName' index) false)
      (fun _ _ _ ha _ => normalizeEmailIdentity_canonical ha) hitems
    simp only [identitiesJson, normalizeEmailIdentities, Except.bind_eq_ok, check_eq_ok]
    refine ⟨(), ?_, (), ?_, hcanonical 0⟩
    · have hidentities : identities ≠ [] := by
        rintro rfl
        exact hne (List.length_eq_zero_iff.mp hlength.symm)
      simpa using hidentities
    · rw [List.length_map, hlength]
      exact decide_eq_true hle
  unfold normalizeEmailIdentities at h
  split at h
  next items =>
    simp only [Except.bind_eq_ok, check_eq_ok] at h
    obtain ⟨-, hne, -, hle, hitems⟩ := h
    refine hlist _ _ hitems ?_ (by simpa using hle)
    intro hnil
    rw [List.map_eq_nil_iff] at hnil
    rw [hnil] at hne
    cases hne
  next =>
    split at h
    next identity hidentity =>
      cases h
      exact hlist 0 [value] (by simp only [forEntries, hidentity]; rfl) (List.cons_ne_nil _ _)
        (by simp [maxRecipients])
    · cases h

theorem orUndefined_eq_some {α : Type} {values as : List α} :
    orUndefined values = some as ↔ values = as ∧ as ≠ [] := by
  unfold orUndefined
  cases values with
  | nil =>
      constructor
      · intro h
        cases h
      · rintro ⟨rfl, h⟩
        exact absurd rfl h
  | cons a values =>
      constructor
      · intro h
        cases h
        exact ⟨rfl, List.cons_ne_nil _ _⟩
      · rintro ⟨rfl, -⟩
        rfl

theorem normalizeTag_canonical {item : Option Json} {fieldName fieldName' : JsString}
    {tag : EmailTag} (h : normalizeTag fieldName item = .ok tag) :
    normalizeTag fieldName' (some tag.toJson) = .ok tag := by
  simp only [normalizeTag, Except.bind_eq_ok, orError_eq_ok, Except.pure_eq_ok] at h ⊢
  obtain ⟨name, hname, value, hvalue, rfl⟩ := h
  refine ⟨name, ?_, value, ?_, rfl⟩
  · rw [EmailTag.toJson, field_cons_eq]
    exact requiredText_canonical hname
  · rw [EmailTag.toJson, field_cons_ne (by decide), field_cons_eq]
    exact requiredText_canonical hvalue

theorem normalizeTags_canonical {value : Option Json} {fieldName fieldName' : JsString}
    {tags : Option (List EmailTag)} (h : normalizeTags value fieldName = .ok tags) :
    normalizeTags (tags.map tagsJson) fieldName' = .ok tags := by
  cases tags with
  | none => rfl
  | some tags =>
      unfold normalizeTags at h
      split at h
      · cases h
      next items =>
        simp only [Except.bind_eq_ok, check_eq_ok, Except.pure_eq_ok] at h
        obtain ⟨-, hle, as, has, hundefined⟩ := h
        obtain ⟨rfl, hne⟩ := orUndefined_eq_some.mp hundefined
        obtain ⟨hlength, hcanonical⟩ := forEntries_canonical EmailTag.toJson
          (fun index item => normalizeTag (elementName fieldName' index) item)
          (fun _ _ _ ha _ => normalizeTag_canonical ha) has
        simp only [Option.map_some, tagsJson, normalizeTags, Except.bind_eq_ok, check_eq_ok,
          Except.pure_eq_ok]
        refine ⟨(), ?_, as, hcanonical 0, hundefined⟩
        rw [List.length_map, hlength, List.length_map]
        exact hle
      · cases h

/-! ### Attachment references -/

theorem split_map {f : UInt16 → UInt16} {separator : UInt16}
    (hf : ∀ c, f c = separator ↔ c = separator) (s : JsString) :
    split separator (s.map f) = (split separator s).map fun w => w.map f := by
  induction s with
  | nil => rfl
  | cons c s ih =>
      rw [List.map_cons, split, split]
      by_cases hc : c = separator
      · rw [if_pos (by simpa using (hf c).mpr hc), if_pos (by simpa using hc), ih]
        rfl
      · rw [if_neg (by simpa using fun h => hc ((hf c).mp h)), if_neg (by simpa using hc), ih]
        cases split separator s with
        | nil => rfl
        | cons w ws => rfl

/-- Every character is the separator or belongs to a word. -/
theorem mem_split (separator : UInt16) {c : UInt16} {s : JsString} (h : c ∈ s) :
    c = separator ∨ ∃ w ∈ split separator s, c ∈ w := by
  induction s with
  | nil => cases h
  | cons d s ih =>
      rw [split]
      by_cases hd : d = separator
      · rw [if_pos (by simpa using hd)]
        rcases List.mem_cons.mp h with rfl | h
        · exact .inl hd
        · rcases ih h with heq | ⟨w, hw, hcw⟩
          · exact .inl heq
          · exact .inr ⟨w, List.mem_cons_of_mem _ hw, hcw⟩
      · rw [if_neg (by simpa using hd)]
        cases hs : split separator s with
        | nil =>
            rw [hs] at ih
            rcases List.mem_cons.mp h with rfl | h
            · exact .inr ⟨[c], by simp, by simp⟩
            · rcases ih h with heq | ⟨w, hw, -⟩
              · exact .inl heq
              · cases hw
        | cons w ws =>
            rw [hs] at ih
            rcases List.mem_cons.mp h with rfl | h
            · exact .inr ⟨c :: w, by simp, by simp⟩
            · rcases ih h with heq | ⟨v, hv, hcv⟩
              · exact .inl heq
              · rcases List.mem_cons.mp hv with rfl | hv
                · exact .inr ⟨d :: v, by simp, List.mem_cons_of_mem d hcv⟩
                · exact .inr ⟨v, List.mem_cons_of_mem _ hv, hcv⟩

/-- The letter case of an ASCII character. -/
def asciiLower (c : UInt16) : UInt16 := if isUpperLetter c then c + 32 else c

/-- A fact about ASCII characters, checked on all of them. -/
theorem ascii_all {P : UInt16 → Prop} (h : ∀ n : ℕ, n < 128 → P (UInt16.ofNat n)) :
    ∀ c : UInt16, c < 128 → P c := by
  intro c hc
  have hn := h c.toNat (UInt16.lt_iff_toNat_lt.mp hc)
  rwa [UInt16.ofNat_toNat] at hn

theorem isHexDigit_lt {c : UInt16} (h : isHexDigit c = true) : c < 128 := by
  simp only [isHexDigit, isDigit, Bool.or_eq_true, Bool.and_eq_true, decide_eq_true_eq,
    UInt16.le_iff_toNat_le] at h
  rw [UInt16.lt_iff_toNat_lt]
  simp at h ⊢
  omega

theorem isHexDigit_lower {c : UInt16} (h : isHexDigit c = true) :
    isHexDigit (asciiLower c) = true :=
  ascii_all (P := fun c => isHexDigit c = true → isHexDigit (asciiLower c) = true) (by decide) c
    (isHexDigit_lt h) h

theorem asciiLower_eq_hyphen (c : UInt16) : asciiLower c = 45 ↔ c = 45 := by
  unfold asciiLower
  split
  next h =>
    simp only [isUpperLetter, Bool.and_eq_true, decide_eq_true_eq, UInt16.le_iff_toNat_le] at h
    have hbounds : 65 ≤ c.toNat ∧ c.toNat ≤ 90 := h
    have hadd : (c + 32).toNat = c.toNat + 32 := by
      rw [UInt16.toNat_add]
      exact Nat.mod_eq_of_lt (by simp; omega)
    constructor
    · intro heq
      rw [heq] at hadd
      have : (45 : UInt16).toNat = 45 := rfl
      omega
    · rintro rfl
      exact absurd hbounds.1 (by decide)
  · rfl

/-- The groups of a UUID. -/
theorem isUuid_iff {s : JsString} : isUuid s = true ↔
    ∃ a b c d e, split 45 s = [a, b, c, d, e] ∧
      (a.length = 8 ∧ b.length = 4 ∧ c.length = 4 ∧ d.length = 4 ∧ e.length = 12) ∧
      (∀ group ∈ [a, b, c, d, e], ∀ x ∈ group, isHexDigit x = true) ∧
      (∃ v ∈ c.head?, 49 ≤ v ∧ v ≤ 56) ∧ ∃ v ∈ d.head?, v ∈ js "89abAB" := by
  unfold isUuid
  split
  next a b c d e hs =>
    simp only [Bool.and_eq_true, beq_iff_eq, List.all_eq_true, Option.any_eq_true,
      decide_eq_true_eq, List.contains_iff_mem, hs]
    constructor
    · rintro ⟨⟨⟨⟨⟨⟨⟨ha, hb⟩, hc⟩, hd⟩, he⟩, hhex⟩, v, hv, hbounds⟩, w, hw, hmem⟩
      exact ⟨a, b, c, d, e, rfl, ⟨ha, hb, hc, hd, he⟩, hhex, ⟨v, hv, hbounds⟩, w, hw, hmem⟩
    · rintro ⟨_, _, _, _, _, heq, ⟨ha, hb, hc, hd, he⟩, hhex, ⟨v, hv, hbounds⟩, w, hw, hmem⟩
      cases heq
      exact ⟨⟨⟨⟨⟨⟨⟨ha, hb⟩, hc⟩, hd⟩, he⟩, hhex⟩, v, hv, hbounds⟩, w, hw, hmem⟩
  next hnot =>
    constructor
    · intro h
      cases h
    · rintro ⟨a, b, c, d, e, hs, -⟩
      exact absurd hs (hnot a b c d e)

theorem isUuid_ascii {s : JsString} (h : isUuid s = true) : ∀ c ∈ s, c < 128 := by
  obtain ⟨a, b, c, d, e, hs, -, hhex, -⟩ := isUuid_iff.mp h
  intro x hx
  rcases mem_split 45 hx with rfl | ⟨w, hw, hxw⟩
  · decide
  · rw [hs] at hw
    exact isHexDigit_lt (hhex w hw x hxw)

/-- A UUID in lower case is a UUID. -/
theorem isUuid_toLowerCase {s : JsString} (h : isUuid s = true) :
    isUuid (u.toLowerCase s) = true := by
  have hlower : u.toLowerCase s = s.map asciiLower := CaseData.toLowerCase_ascii (isUuid_ascii h)
  obtain ⟨a, b, c, d, e, hs, hlength, hhex, ⟨v, hv, hbounds⟩, w, hw, hmem⟩ := isUuid_iff.mp h
  have hdigit : asciiLower v = v := by
    refine if_neg ?_
    simp only [isUpperLetter, Bool.and_eq_true, decide_eq_true_eq, UInt16.le_iff_toNat_le]
      at hbounds ⊢
    have : (56 : UInt16).toNat = 56 := rfl
    have : (65 : UInt16).toNat = 65 := rfl
    omega
  refine isUuid_iff.mpr ⟨a.map asciiLower, b.map asciiLower, c.map asciiLower, d.map asciiLower,
    e.map asciiLower, ?_, ?_, ?_, ⟨v, ?_, hbounds⟩, asciiLower w, ?_, ?_⟩
  · rw [hlower, split_map asciiLower_eq_hyphen, hs]
    rfl
  · simpa only [List.length_map] using hlength
  · intro group hgroup x hx
    have hgroup' : group ∈ [a, b, c, d, e].map fun g => g.map asciiLower := hgroup
    obtain ⟨g, hg, rfl⟩ := List.mem_map.mp hgroup'
    obtain ⟨y, hy, rfl⟩ := List.mem_map.mp hx
    exact isHexDigit_lower (hhex g hg y hy)
  · rw [List.head?_map, Option.mem_def.mp hv, Option.map_some, hdigit]
    rfl
  · rw [List.head?_map, Option.mem_def.mp hw]
    rfl
  · exact forall_mem_of_all (p := fun w => asciiLower w ∈ js "89abAB") (by decide) w hmem

theorem contentIdText_eq_some {value : Json} {t : JsString} :
    contentIdText value = some t ↔
      ∃ s, value = .string s ∧ isHeaderSafeText s maxRequestContentIdLength = true ∧
      (∀ c ∈ s, isRefusedInContentId c = false) ∧ trim s = t ∧ t ≠ [] := by
  unfold contentIdText
  split
  next s =>
    constructor
    · intro h
      split at h
      next hs =>
        cases h
        rw [Bool.and_eq_true, Bool.and_eq_true] at hs
        exact ⟨s, rfl, hs.1.1, by simpa using hs.2, rfl, by simpa using hs.1.2⟩
      · cases h
    · rintro ⟨s', hs', hsafe, hrefused, rfl, hne⟩
      cases hs'
      rw [if_pos]
      rw [Bool.and_eq_true, Bool.and_eq_true]
      exact ⟨⟨hsafe, by simpa using hne⟩, by simpa using hrefused⟩
  next hnot =>
    constructor
    · intro h
      cases h
    · rintro ⟨s, rfl, -⟩
      exact absurd rfl (hnot s)

theorem contentIdText_canonical {value : Json} {t : JsString} (h : contentIdText value = some t) :
    contentIdText (.string t) = some t := by
  obtain ⟨s, -, hsafe, hrefused, rfl, hne⟩ := contentIdText_eq_some.mp h
  exact contentIdText_eq_some.mpr ⟨_, rfl, isHeaderSafeText_trim hsafe,
    fun c hc => hrefused c (trim_subset s c hc), trim_trim s, hne⟩

/-- What an accepted reference is made of. -/
theorem normalizeAttachmentRef_eq_ok {lower : JsString → JsString} {fieldName : JsString}
    {seen : List JsString} {item : Option Json} {ref : AttachmentRef} :
    normalizeAttachmentRef lower fieldName seen item = .ok ref ↔
      ∃ text, asString (field "id" item) = some text ∧ isUuid text = true ∧ lower text = ref.id ∧
        ref.id ∉ seen ∧ (field "contentId" item).map contentIdText = ref.contentId.map some := by
  simp only [normalizeAttachmentRef, Except.bind_eq_ok, orError_eq_ok, check_eq_ok,
    Option.filter_eq_some_iff]
  cases hcontent : field "contentId" item with
  | none =>
      simp only [Except.pure_eq_ok]
      constructor
      · rintro ⟨text, ⟨htext, huuid⟩, _, hseen, rfl⟩
        exact ⟨text, htext, huuid, rfl, by simpa using hseen, rfl⟩
      · rintro ⟨text, htext, huuid, hid, hseen, hnone⟩
        refine ⟨text, ⟨htext, huuid⟩, (), by simpa [hid] using hseen, ?_⟩
        cases ref with
        | mk id contentId =>
            cases contentId with
            | none => exact congrArg (AttachmentRef.mk · none) hid
            | some t => cases hnone
  | some value =>
      simp only [Except.bind_eq_ok, orError_eq_ok, Except.pure_eq_ok]
      constructor
      · rintro ⟨text, ⟨htext, huuid⟩, _, hseen, t, ht, rfl⟩
        exact ⟨text, htext, huuid, rfl, by simpa using hseen, congrArg some ht⟩
      · rintro ⟨text, htext, huuid, hid, hseen, hsome⟩
        cases ref with
        | mk id contentId =>
            cases contentId with
            | none => cases hsome
            | some t =>
                refine ⟨text, ⟨htext, huuid⟩, (), by simpa [hid] using hseen, t,
                  Option.some.inj hsome, ?_⟩
                exact congrArg (AttachmentRef.mk · (some t)) hid

theorem normalizeAttachmentRef_canonical {item : Option Json} {fieldName fieldName' : JsString}
    {seen : List JsString} {ref : AttachmentRef}
    (h : normalizeAttachmentRef u.toLowerCase fieldName seen item = .ok ref) :
    normalizeAttachmentRef u.toLowerCase fieldName' seen (some ref.toJson) = .ok ref := by
  obtain ⟨text, -, huuid, hid, hseen, hcontent⟩ := normalizeAttachmentRef_eq_ok.mp h
  refine normalizeAttachmentRef_eq_ok.mpr ⟨ref.id, ?_, ?_, ?_, hseen, ?_⟩
  · rw [AttachmentRef.toJson, field_cons_eq]
    rfl
  · rw [← hid]
    exact isUuid_toLowerCase huuid
  · rw [← hid, CaseData.toLowerCase_toLowerCase]
  · have hfield : field "contentId" (some ref.toJson) = ref.contentId.map .string := by
      rw [AttachmentRef.toJson, field_cons_ne (by decide), field_last_eq]
    rw [hfield]
    cases hc : ref.contentId with
    | none => rfl
    | some t =>
        rw [hc] at hcontent
        obtain ⟨value, -, hvalue⟩ := Option.map_eq_some_iff.mp hcontent
        rw [Option.map_some, Option.map_some, contentIdText_canonical hvalue]
        rfl

theorem normalizeAttachmentEntries_canonical {fieldName : JsString} (fieldName' : JsString) :
    ∀ {seen : List JsString} {i : ℕ} {items : List (Option Json)} {refs : List AttachmentRef},
      normalizeAttachmentEntries u.toLowerCase fieldName seen i items = .ok refs →
      refs.length = items.length ∧ ∀ j,
        normalizeAttachmentEntries u.toLowerCase fieldName' seen j
          ((refs.map AttachmentRef.toJson).map some) = .ok refs
  | seen, i, [], refs, h => by
      cases h
      exact ⟨rfl, fun _ => rfl⟩
  | seen, i, item :: items, refs, h => by
      simp only [normalizeAttachmentEntries, Except.bind_eq_ok, Except.pure_eq_ok] at h
      obtain ⟨ref, href, rest, hrest, rfl⟩ := h
      obtain ⟨hlength, hcanonical⟩ := normalizeAttachmentEntries_canonical fieldName' hrest
      refine ⟨congrArg (· + 1) hlength, fun j => ?_⟩
      simp only [List.map_cons, normalizeAttachmentEntries, Except.bind_eq_ok, Except.pure_eq_ok]
      exact ⟨ref, normalizeAttachmentRef_canonical href, rest, hcanonical (j + 1), rfl⟩

theorem normalizeAttachmentRefs_canonical {config : Config} {value : Option Json}
    {fieldName fieldName' : JsString} {refs : Option (List AttachmentRef)}
    (h : normalizeAttachmentRefs u.toLowerCase config value fieldName = .ok refs) :
    normalizeAttachmentRefs u.toLowerCase config (refs.map attachmentsJson) fieldName' =
      .ok refs := by
  cases refs with
  | none => rfl
  | some refs =>
      unfold normalizeAttachmentRefs at h
      split at h
      · cases h
      next value =>
        simp only [Except.bind_eq_ok, check_eq_ok] at h
        obtain ⟨-, henabled, h⟩ := h
        split at h
        next items =>
          simp only [Except.bind_eq_ok, check_eq_ok, Except.pure_eq_ok] at h
          obtain ⟨-, hle, as, has, hundefined⟩ := h
          obtain ⟨rfl, hne⟩ := orUndefined_eq_some.mp hundefined
          obtain ⟨hlength, hcanonical⟩ := normalizeAttachmentEntries_canonical fieldName' has
          simp only [Option.map_some, attachmentsJson, normalizeAttachmentRefs, Except.bind_eq_ok,
            check_eq_ok, Except.pure_eq_ok]
          refine ⟨(), henabled, (), ?_, as, hcanonical 0, hundefined⟩
          rw [List.length_map, hlength, List.length_map]
          exact hle
        · cases h

/-! ### Bodies -/

theorem topicIdentity_canonical {value : Option Json} {topic : TopicIdentity}
    (h : topicIdentity value = some topic) :
    topicIdentity (some topic.toJson) = some topic := by
  simp only [topicIdentity, Option.bind_eq_bind, Option.bind_eq_some_iff, Option.pure_def,
    Option.some.injEq] at h ⊢
  obtain ⟨type, htype, externalId, hexternal, title, htitle, rfl⟩ := h
  have htype := (Option.filter_eq_some_iff.mp htype).2
  have hexternal := (Option.filter_eq_some_iff.mp hexternal).2
  refine ⟨type, ?_, externalId, ?_, title, ?_, rfl⟩
  · rw [TopicIdentity.toJson, field_cons_eq]
    exact Option.filter_eq_some_iff.mpr ⟨rfl, htype⟩
  · rw [TopicIdentity.toJson, field_cons_ne (by decide), field_cons_eq]
    exact Option.filter_eq_some_iff.mpr ⟨rfl, hexternal⟩
  · rw [TopicIdentity.toJson, field_cons_ne (by decide), field_cons_ne (by decide), field_cons_eq]
    exact requiredText_canonical htitle

theorem normalizeOptionalIdentities_canonical {value : Option Json}
    {fieldName fieldName' : JsString} {identities : Option (List EmailIdentity)}
    (h : normalizeOptionalIdentities u.toLowerCase value fieldName = .ok identities) :
    normalizeOptionalIdentities u.toLowerCase (identities.map identitiesJson) fieldName' =
      .ok identities := by
  unfold normalizeOptionalIdentities at h
  split at h
  · cases h
    rfl
  next value =>
    obtain ⟨list, hlist, rfl⟩ := Except.map_eq_ok.mp h
    exact Except.map_eq_ok.mpr ⟨list, normalizeEmailIdentities_canonical hlist, rfl⟩

variable {config : Config}

/-- The fields of a normalised opening message. -/
theorem field_openingMessage (m : OpeningMessageValue) :
    field "text" (some m.toJson) = m.text.map .string ∧ field "html" (some m.toJson) =
      m.html.map .string ∧ field "from" (some m.toJson) = some m.from.toJson ∧
      field "to" (some m.toJson) = m.to.map identitiesJson ∧
      field "replyTo" (some m.toJson) = some m.replyTo.toJson ∧
      field "tags" (some m.toJson) = m.tags.map tagsJson ∧
      field "attachments" (some m.toJson) = m.attachments.map attachmentsJson ∧
      field "replyToName" (some m.toJson) = none := by
  refine ⟨?_, ?_, ?_, ?_, ?_, ?_, ?_, ?_⟩
  all_goals
    simp (disch := decide) only [OpeningMessageValue.toJson, List.append_assoc, field_cons_eq,
      field_cons_ne,
      field_optional_eq, field_optional_ne, field_last_eq, field_last_ne, Option.or_none]

/-- The fields of a normalised opening. -/
theorem field_createV2 (v : CreateV2Value) :
    field "topic" (some v.toJson) = some v.topic.toJson ∧
      field "participant" (some v.toJson) = some v.participant.toJson ∧
      field "subject" (some v.toJson) = v.subject.map .string ∧
      field "message" (some v.toJson) = some v.message.toJson := by
  refine ⟨?_, ?_, ?_, ?_⟩
  all_goals
    simp (disch := decide) only [CreateV2Value.toJson, field_cons_eq, field_cons_ne,
      field_optional_eq, field_optional_ne, field_nil, Option.or_none]

theorem field_participant (p : ParticipantInput) :
    field "email" (some p.toJson) = some (.string p.email) ∧
      field "name" (some p.toJson) = some (nameJson p.name) := by
  refine ⟨?_, ?_⟩
  all_goals
    simp (disch := decide) only [ParticipantInput.toJson, field_cons_eq, field_cons_ne]

/-- The fields of a normalised reply. -/
theorem field_messageV2 (m : MessageV2Value) :
    field "text" (some m.toJson) = m.text.map .string ∧
      field "html" (some m.toJson) = m.html.map .string ∧
      field "replyToMessageId" (some m.toJson) = m.replyToMessageId.map .string ∧
      field "from" (some m.toJson) = some m.from.toJson ∧
      field "to" (some m.toJson) = m.to.map identitiesJson ∧
      field "replyTo" (some m.toJson) = some m.replyTo.toJson ∧
      field "tags" (some m.toJson) = m.tags.map tagsJson ∧
      field "attachments" (some m.toJson) = m.attachments.map attachmentsJson ∧
      field "replyToName" (some m.toJson) = none := by
  refine ⟨?_, ?_, ?_, ?_, ?_, ?_, ?_, ?_, ?_⟩
  all_goals
    simp (disch := decide) only [MessageV2Value.toJson, List.append_assoc, field_cons_eq,
      field_cons_ne,
      field_optional_eq, field_optional_ne, field_last_eq, field_last_ne, Option.or_none]

/-- The fields of a normalised direct email. -/
theorem field_directEmailV2 (v : DirectEmailV2Value) :
    field "from" (some v.toJson) = some v.from.toJson ∧
      field "to" (some v.toJson) = some (identitiesJson v.to) ∧
      field "subject" (some v.toJson) = some (.string v.subject) ∧
      field "text" (some v.toJson) = v.text.map .string ∧
        field "html" (some v.toJson) = v.html.map .string ∧
      field "tags" (some v.toJson) = v.tags.map tagsJson ∧
      field "attachments" (some v.toJson) = v.attachments.map attachmentsJson ∧
      field "replyTo" (some v.toJson) = none := by
  refine ⟨?_, ?_, ?_, ?_, ?_, ?_, ?_, ?_⟩
  all_goals
    simp (disch := decide) only [DirectEmailV2Value.toJson, List.append_assoc, field_cons_eq,
      field_cons_ne,
      field_optional_eq, field_optional_ne, field_last_eq, field_last_ne, Option.or_none]

theorem validateCreateV2Body_canonical {body : Option Json} {value : CreateV2Value}
    (h : validateCreateV2Body u.toLowerCase config body = .ok value) :
    validateCreateV2Body u.toLowerCase config (some value.toJson) = .ok value := by
  simp only [validateCreateV2Body, validateCreateBody, Except.bind_eq_ok, check_eq_ok,
    orError_eq_ok, Except.pure_eq_ok] at h
  obtain ⟨base, ⟨-, -, topic, htopic, email, hemail, name, hname, replyToName, -, -, htexts, -,
      hfits, subject,
    hsubject, rfl⟩, -, -, -, -, sender, hfrom, replyTo, hreplyTo, tags, htags, attachments,
      hattachments,
    recipients, hto, rfl⟩ := h
  obtain ⟨hftopic, hfparticipant, hfsubject, hfmessage⟩ := field_createV2
    ⟨topic, ⟨email, name⟩, subject, ⟨_, _, sender, recipients, replyTo, tags, attachments⟩⟩
  obtain ⟨hftext, hfhtml, hffrom, hfto, hfreplyTo, hftags, hfattachments, hfreplyToName⟩ :=
    field_openingMessage ⟨_, _, sender, recipients, replyTo, tags, attachments⟩
  obtain ⟨hfemail, hfname⟩ := field_participant ⟨email, name⟩
  simp only [validateCreateV2Body, validateCreateBody, Except.bind_eq_ok, check_eq_ok,
    orError_eq_ok, Except.pure_eq_ok]
  rw [hftopic, hfparticipant, hfsubject, hfmessage, hftext, hfhtml, hffrom, hfto, hfreplyTo, hftags,
    hfattachments, hfreplyToName, hfemail, hfname, bodyText_canonical, bodyText_canonical]
  exact ⟨_, ⟨(), rfl, topic, topicIdentity_canonical htopic, email,
    Option.filter_eq_some_iff.mpr ⟨rfl, (Option.filter_eq_some_iff.mp hemail).2⟩, name,
    optionalText_canonical hname, none, rfl, (), htexts, (), hfits, subject,
      optionalSubject_canonical hsubject,
    rfl⟩, (), rfl, (), rfl, sender, normalizeEmailIdentity_canonical hfrom, replyTo,
    normalizeEmailIdentity_canonical hreplyTo, tags, normalizeTags_canonical htags, attachments,
    normalizeAttachmentRefs_canonical hattachments, recipients,
      normalizeOptionalIdentities_canonical hto, rfl⟩

theorem optionalUuid_canonical {value : Option Json} {error : JsString} {id : Option JsString}
    (h : optionalUuid value error = .ok id) : optionalUuid (id.map .string) error = .ok id := by
  cases value with
  | none =>
      cases h
      rfl
  | some value =>
      obtain ⟨text, htext, rfl⟩ := Except.map_eq_ok.mp h
      have huuid := (Option.filter_eq_some_iff.mp (orError_eq_ok.mp htext)).2
      exact Except.map_eq_ok.mpr
        ⟨text, orError_eq_ok.mpr (Option.filter_eq_some_iff.mpr ⟨rfl, huuid⟩), rfl⟩

theorem validateMessageV2Body_canonical {body : Option Json} {value : MessageV2Value}
    (h : validateMessageV2Body u.toLowerCase config body = .ok value) :
    validateMessageV2Body u.toLowerCase config (some value.toJson) = .ok value := by
  simp only [validateMessageV2Body, validateMessageBody, Except.bind_eq_ok, check_eq_ok,
    orError_eq_ok, Except.pure_eq_ok] at h
  obtain ⟨base, ⟨-, -, replyToName, -, -, htexts, -, hfits, id, hid, rfl⟩, -, -, sender, hfrom,
      replyTo, hreplyTo,
    tags, htags, attachments, hattachments, recipients, hto, rfl⟩ := h
  obtain ⟨hftext, hfhtml, hfid, hffrom, hfto, hfreplyTo, hftags, hfattachments, hfreplyToName⟩ :=
    field_messageV2 ⟨_, _, id, sender, recipients, replyTo, tags, attachments⟩
  simp only [validateMessageV2Body, validateMessageBody, Except.bind_eq_ok, check_eq_ok,
    orError_eq_ok, Except.pure_eq_ok]
  rw [hftext, hfhtml, hfid, hffrom, hfto, hfreplyTo, hftags, hfattachments, hfreplyToName,
    bodyText_canonical, bodyText_canonical]
  exact ⟨_, ⟨(), rfl, none, rfl, (), htexts, (), hfits, id, optionalUuid_canonical hid, rfl⟩, (),
    rfl, sender,
    normalizeEmailIdentity_canonical hfrom, replyTo,
      normalizeEmailIdentity_canonical hreplyTo, tags,
    normalizeTags_canonical htags, attachments, normalizeAttachmentRefs_canonical hattachments,
      recipients,
    normalizeOptionalIdentities_canonical hto, rfl⟩

theorem validateDirectEmailV2Body_canonical {body : Option Json} {value : DirectEmailV2Value}
    (h : validateDirectEmailV2Body u.toLowerCase config body = .ok value) :
    validateDirectEmailV2Body u.toLowerCase config (some value.toJson) = .ok value := by
  simp only [validateDirectEmailV2Body, Except.bind_eq_ok, check_eq_ok, orError_eq_ok,
    Except.pure_eq_ok] at h
  obtain ⟨-, -, -, -, sender, hfrom, recipients, hto, tags, htags, attachments, hattachments,
      subject, hsubject,
    text, htext, html, hhtml, -, htexts, -, hfits, rfl⟩ := h
  obtain ⟨hffrom, hfto, hfsubject, hftext, hfhtml, hftags, hfattachments, hfreplyTo⟩ :=
    field_directEmailV2 ⟨sender, recipients, subject, text, html, tags, attachments⟩
  simp only [validateDirectEmailV2Body, Except.bind_eq_ok, check_eq_ok, orError_eq_ok,
    Except.pure_eq_ok]
  rw [hffrom, hfto, hfsubject, hftext, hfhtml, hftags, hfattachments, hfreplyTo]
  exact ⟨(), rfl, (), rfl, sender, normalizeEmailIdentity_canonical hfrom, recipients,
    normalizeEmailIdentities_canonical hto, tags, normalizeTags_canonical htags, attachments,
    normalizeAttachmentRefs_canonical hattachments, subject, requiredText_canonical hsubject, text,
    providedText_canonical htext, html, providedText_canonical hhtml, (), htexts, (), hfits, rfl⟩

/-! ### Bodies without attachments -/

theorem validateCreateV2Body_plain {lower : JsString → JsString} {body : Option Json}
    (h : field "attachments" (field "message" body) = none) (config' : Config) :
    validateCreateV2Body lower config body = validateCreateV2Body lower config' body := by
  unfold validateCreateV2Body
  dsimp only
  rw [h]
  rfl

theorem validateMessageV2Body_plain {lower : JsString → JsString} {body : Option Json}
    (h : field "attachments" body = none) (config' : Config) :
    validateMessageV2Body lower config body = validateMessageV2Body lower config' body := by
  unfold validateMessageV2Body
  rw [h]
  rfl

theorem validateDirectEmailV2Body_plain {lower : JsString → JsString} {body : Option Json}
    (h : field "attachments" body = none) (config' : Config) :
    validateDirectEmailV2Body lower config body = validateDirectEmailV2Body lower config' body := by
  unfold validateDirectEmailV2Body
  rw [h]
  rfl

end

/-! ### The preimage -/

theorem string_injective : Function.Injective Json.string := fun _ _ h => Json.string.inj h

theorem nameJson_injective : Function.Injective nameJson := by
  intro a b h
  cases a with
  | none =>
      cases b with
      | none => rfl
      | some t => cases h
  | some s =>
      cases b with
      | none => cases h
      | some t => exact congrArg some (Json.string.inj h)

theorem identityJson_injective : Function.Injective EmailIdentity.toJson := by
  intro a b h
  simp only [EmailIdentity.toJson, Json.object.injEq, List.cons.injEq, Prod.mk.injEq,
    Json.string.injEq, true_and, and_true] at h
  cases a
  cases b
  cases h.1
  cases nameJson_injective h.2
  rfl

theorem tagJson_injective : Function.Injective EmailTag.toJson := by
  intro a b h
  simp only [EmailTag.toJson, Json.object.injEq, List.cons.injEq, Prod.mk.injEq,
    Json.string.injEq, true_and, and_true] at h
  cases a
  cases b
  cases h.1
  cases h.2
  rfl

theorem attachmentJson_injective : Function.Injective AttachmentRef.toJson := by
  intro a b h
  have hid : field "id" (some a.toJson) = field "id" (some b.toJson) := by rw [h]
  have hcontent : field "contentId" (some a.toJson) = field "contentId" (some b.toJson) := by rw [h]
  simp (disch := decide) only [AttachmentRef.toJson, field_cons_eq, field_cons_ne, field_last_eq,
    Option.some.injEq, Json.string.injEq] at hid hcontent
  cases a
  cases b
  cases hid
  cases Option.map_injective string_injective hcontent
  rfl

theorem identitiesJson_injective : Function.Injective identitiesJson := fun _ _ h =>
  List.map_injective_iff.mpr identityJson_injective (Json.array.inj h)

theorem tagsJson_injective : Function.Injective tagsJson := fun _ _ h =>
  List.map_injective_iff.mpr tagJson_injective (Json.array.inj h)

theorem attachmentsJson_injective : Function.Injective attachmentsJson := fun _ _ h =>
  List.map_injective_iff.mpr attachmentJson_injective (Json.array.inj h)

theorem topicJson_injective : Function.Injective TopicIdentity.toJson := by
  intro a b h
  simp only [TopicIdentity.toJson, Json.object.injEq, List.cons.injEq, Prod.mk.injEq,
    Json.string.injEq, true_and, and_true] at h
  cases a
  cases b
  cases h.1
  cases h.2.1
  cases h.2.2
  rfl

theorem participantJson_injective : Function.Injective ParticipantInput.toJson := by
  intro a b h
  simp only [ParticipantInput.toJson, Json.object.injEq, List.cons.injEq, Prod.mk.injEq,
    Json.string.injEq, true_and, and_true] at h
  cases a
  cases b
  cases h.1
  cases nameJson_injective h.2
  rfl

theorem openingMessageJson_injective : Function.Injective OpeningMessageValue.toJson := by
  intro a b h
  obtain ⟨htext, hhtml, hfrom, hto, hreplyTo, htags, hattachments, -⟩ := field_openingMessage a
  rw [h] at htext hhtml hfrom hto hreplyTo htags hattachments
  obtain ⟨htext', hhtml', hfrom', hto', hreplyTo', htags', hattachments', -⟩ :=
    field_openingMessage b
  rw [htext'] at htext
  rw [hhtml'] at hhtml
  rw [hfrom', Option.some.injEq] at hfrom
  rw [hto'] at hto
  rw [hreplyTo', Option.some.injEq] at hreplyTo
  rw [htags'] at htags
  rw [hattachments'] at hattachments
  cases a
  cases b
  cases Option.map_injective string_injective htext
  cases Option.map_injective string_injective hhtml
  cases identityJson_injective hfrom
  cases Option.map_injective identitiesJson_injective hto
  cases identityJson_injective hreplyTo
  cases Option.map_injective tagsJson_injective htags
  cases Option.map_injective attachmentsJson_injective hattachments
  rfl

theorem createV2Json_injective : Function.Injective CreateV2Value.toJson := by
  intro a b h
  obtain ⟨htopic, hparticipant, hsubject, hmessage⟩ := field_createV2 a
  rw [h] at htopic hparticipant hsubject hmessage
  obtain ⟨htopic', hparticipant', hsubject', hmessage'⟩ := field_createV2 b
  rw [htopic', Option.some.injEq] at htopic
  rw [hparticipant', Option.some.injEq] at hparticipant
  rw [hsubject'] at hsubject
  rw [hmessage', Option.some.injEq] at hmessage
  cases a
  cases b
  cases topicJson_injective htopic
  cases participantJson_injective hparticipant
  cases Option.map_injective string_injective hsubject
  cases openingMessageJson_injective hmessage
  rfl

theorem messageV2Json_injective : Function.Injective MessageV2Value.toJson := by
  intro a b h
  obtain ⟨htext, hhtml, hid, hfrom, hto, hreplyTo, htags, hattachments, -⟩ := field_messageV2 a
  rw [h] at htext hhtml hid hfrom hto hreplyTo htags hattachments
  obtain ⟨htext', hhtml', hid', hfrom', hto', hreplyTo', htags', hattachments', -⟩ :=
    field_messageV2 b
  rw [htext'] at htext
  rw [hhtml'] at hhtml
  rw [hid'] at hid
  rw [hfrom', Option.some.injEq] at hfrom
  rw [hto'] at hto
  rw [hreplyTo', Option.some.injEq] at hreplyTo
  rw [htags'] at htags
  rw [hattachments'] at hattachments
  cases a
  cases b
  cases Option.map_injective string_injective htext
  cases Option.map_injective string_injective hhtml
  cases Option.map_injective string_injective hid
  cases identityJson_injective hfrom
  cases Option.map_injective identitiesJson_injective hto
  cases identityJson_injective hreplyTo
  cases Option.map_injective tagsJson_injective htags
  cases Option.map_injective attachmentsJson_injective hattachments
  rfl

theorem directEmailV2Json_injective : Function.Injective DirectEmailV2Value.toJson := by
  intro a b h
  obtain ⟨hfrom, hto, hsubject, htext, hhtml, htags, hattachments, -⟩ := field_directEmailV2 a
  rw [h] at hfrom hto hsubject htext hhtml htags hattachments
  obtain ⟨hfrom', hto', hsubject', htext', hhtml', htags', hattachments', -⟩ :=
    field_directEmailV2 b
  rw [hfrom', Option.some.injEq] at hfrom
  rw [hto', Option.some.injEq] at hto
  rw [hsubject', Option.some.injEq] at hsubject
  rw [htext'] at htext
  rw [hhtml'] at hhtml
  rw [htags'] at htags
  rw [hattachments'] at hattachments
  cases a
  cases b
  cases identityJson_injective hfrom
  cases identitiesJson_injective hto
  cases string_injective hsubject
  cases Option.map_injective string_injective htext
  cases Option.map_injective string_injective hhtml
  cases Option.map_injective tagsJson_injective htags
  cases Option.map_injective attachmentsJson_injective hattachments
  rfl

/-! ### Values without numbers -/

@[simp] theorem numberlessMembers_append (ms ns : List (JsString × Json)) :
    numberlessMembers (ms ++ ns) = (numberlessMembers ms && numberlessMembers ns) := by
  induction ms with
  | nil => rfl
  | cons m ms ih =>
      obtain ⟨name, value⟩ := m
      rw [List.cons_append, numberlessMembers, numberlessMembers, ih, Bool.and_assoc]

@[simp] theorem numberlessMembers_cons (m : JsString × Json) (ms : List (JsString × Json)) :
    numberlessMembers (m :: ms) = (m.2.numberless && numberlessMembers ms) := rfl

@[simp] theorem numberlessMembers_nil : numberlessMembers [] = true := rfl

theorem numberless_optional {α : Type} {toJson : α → Json} (h : ∀ a, (toJson a).numberless = true)
    (name : String) (value : Option α) :
    numberlessMembers (optionalMember name (value.map toJson)) = true := by
  cases value with
  | none => rfl
  | some a => simp [optionalMember, h]

theorem numberless_array {α : Type} {toJson : α → Json} (h : ∀ a, (toJson a).numberless = true)
    (as : List α) :
    (Json.array (as.map toJson)).numberless = true := by
  rw [numberless]
  induction as with
  | nil => rfl
  | cons a as ih => rw [List.map_cons, numberlessElements, h, ih, Bool.and_self]

theorem numberless_string (s : JsString) : (Json.string s).numberless = true := rfl

theorem numberless_name (name : Option JsString) : (nameJson name).numberless = true := by
  cases name <;> rfl

theorem numberless_identity (identity : EmailIdentity) : identity.toJson.numberless = true := by
  simp [EmailIdentity.toJson, numberless, numberless_name]

theorem numberless_tag (tag : EmailTag) : tag.toJson.numberless = true := rfl

theorem numberless_attachment (ref : AttachmentRef) : ref.toJson.numberless = true := by
  simp [AttachmentRef.toJson, numberless, numberless_optional numberless_string]

theorem numberless_identities (identities : List EmailIdentity) :
    (identitiesJson identities).numberless = true :=
  numberless_array numberless_identity identities

theorem numberless_tags (tags : List EmailTag) : (tagsJson tags).numberless = true :=
  numberless_array numberless_tag tags

theorem numberless_attachments (refs : List AttachmentRef) :
    (attachmentsJson refs).numberless = true :=
  numberless_array numberless_attachment refs

theorem numberless_openingMessage (m : OpeningMessageValue) : m.toJson.numberless = true := by
  simp [OpeningMessageValue.toJson, numberless, numberless_optional numberless_string,
    numberless_identity,
    numberless_optional numberless_identities, numberless_optional numberless_tags,
    numberless_optional numberless_attachments]

theorem numberless_createV2 (v : CreateV2Value) : v.toJson.numberless = true := by
  simp [CreateV2Value.toJson, TopicIdentity.toJson, ParticipantInput.toJson, numberless,
    numberless_name, numberless_optional numberless_string, numberless_openingMessage]

theorem numberless_messageV2 (m : MessageV2Value) : m.toJson.numberless = true := by
  simp [MessageV2Value.toJson, numberless, numberless_optional numberless_string,
    numberless_identity,
    numberless_optional numberless_identities, numberless_optional numberless_tags,
    numberless_optional numberless_attachments]

theorem numberless_directEmailV2 (v : DirectEmailV2Value) : v.toJson.numberless = true := by
  simp [DirectEmailV2Value.toJson, numberless, numberless_optional numberless_string,
    numberless_identity,
    numberless_identities, numberless_optional numberless_tags,
      numberless_optional numberless_attachments]

namespace ValidatedRequest

theorem numberless_toJson (r : ValidatedRequest) : r.toJson.numberless = true := by
  cases r with
  | opening queued value => simp [toJson, numberless, numberless_createV2]
  | reply queued conversationId value => simp [toJson, numberless, numberless_messageV2]
  | direct queued value => simp [toJson, numberless, numberless_directEmailV2]

/-- The operations of the three kinds of requests differ, and so do its delivery modes. -/
theorem toJson_injective : Function.Injective toJson := by
  intro p q h
  cases p with
  | opening queued value =>
      cases q with
      | opening queued' value' =>
          simp only [toJson, Json.object.injEq, List.cons.injEq, Prod.mk.injEq, true_and,
            and_true] at h
          obtain rfl : queued = queued' := by
            have hop := Json.string.inj h.1
            simp only [operation] at hop
            cases queued <;> cases queued' <;> first | rfl | exact absurd hop (by decide)
          rw [createV2Json_injective h.2]
      | reply queued' conversationId' value' => simp [toJson] at h
      | direct queued' value' =>
          simp only [toJson, Json.object.injEq, List.cons.injEq, Prod.mk.injEq, true_and,
            and_true] at h
          have hop := Json.string.inj h.1
          simp only [operation] at hop
          cases queued <;> cases queued' <;> exact absurd hop (by decide)
  | reply queued conversationId value =>
      cases q with
      | opening queued' value' => simp [toJson] at h
      | reply queued' conversationId' value' =>
          simp only [toJson, Json.object.injEq, List.cons.injEq, Prod.mk.injEq, true_and,
            and_true] at h
          obtain rfl : queued = queued' := by
            have hop := Json.string.inj h.1
            simp only [operation] at hop
            cases queued <;> cases queued' <;> first | rfl | exact absurd hop (by decide)
          rw [Json.string.inj h.2.1, messageV2Json_injective h.2.2]
      | direct queued' value' => simp [toJson] at h
  | direct queued value =>
      cases q with
      | opening queued' value' =>
          simp only [toJson, Json.object.injEq, List.cons.injEq, Prod.mk.injEq, true_and,
            and_true] at h
          have hop := Json.string.inj h.1
          simp only [operation] at hop
          cases queued <;> cases queued' <;> exact absurd hop (by decide)
      | reply queued' conversationId' value' => simp [toJson] at h
      | direct queued' value' =>
          simp only [toJson, Json.object.injEq, List.cons.injEq, Prod.mk.injEq, true_and,
            and_true] at h
          obtain rfl : queued = queued' := by
            have hop := Json.string.inj h.1
            simp only [operation] at hop
            cases queued <;> cases queued' <;> first | rfl | exact absurd hop (by decide)
          rw [directEmailV2Json_injective h.2]

theorem preimage_injective {p q : ValidatedRequest} (h : p.preimage = q.preimage) : p = q :=
  toJson_injective (stringify_injective (numberless_toJson p) (numberless_toJson q) h)

end ValidatedRequest

/-- A normalised value validates to itself, a body without attachments to the same value whether
they are enabled or not, and the preimage of its hash determines a request. -/
theorem normalization_canonical (u : CaseData) (config : Config) :
    (∀ body value, validateCreateV2Body u.toLowerCase config body = .ok value →
      validateCreateV2Body u.toLowerCase config (some value.toJson) = .ok value) ∧
    (∀ body value, validateMessageV2Body u.toLowerCase config body = .ok value →
      validateMessageV2Body u.toLowerCase config (some value.toJson) = .ok value) ∧
    (∀ body value, validateDirectEmailV2Body u.toLowerCase config body = .ok value →
      validateDirectEmailV2Body u.toLowerCase config (some value.toJson) = .ok value) ∧
    (∀ body enabled, field "attachments" (field "message" body) = none →
      validateCreateV2Body u.toLowerCase { config with attachmentsEnabled := enabled } body =
        validateCreateV2Body u.toLowerCase config body) ∧
    (∀ body enabled, field "attachments" body = none →
      validateMessageV2Body u.toLowerCase { config with attachmentsEnabled := enabled } body =
          validateMessageV2Body u.toLowerCase config body ∧
        validateDirectEmailV2Body u.toLowerCase { config with attachmentsEnabled := enabled } body =
          validateDirectEmailV2Body u.toLowerCase config body) ∧
    ∀ p q : ValidatedRequest, p.preimage = q.preimage ↔ p = q :=
  ⟨fun _ _ => validateCreateV2Body_canonical, fun _ _ => validateMessageV2Body_canonical,
    fun _ _ => validateDirectEmailV2Body_canonical, fun _ _ h => validateCreateV2Body_plain h _,
    fun _ _ h => ⟨validateMessageV2Body_plain h _, validateDirectEmailV2Body_plain h _⟩,
    fun _ _ => ⟨ValidatedRequest.preimage_injective, fun h => h ▸ rfl⟩⟩

/-- A reply with blank and mixed-case fields: its normalised value is validated again. -/
theorem normalization_canonical_reference :
    ∃ value, validateMessageV2Body CaseData.reference.toLowerCase
        ⟨true, 10, 10, 2, [], true, true, none⟩ (some (.object [
          (js "text", .string (js "Hi")), (js "extra", .number (js "1")),
          (js "from", .object
            [(js "address", .string (js " Me@X.example ")), (js "name", .string (js " "))]),
          (js "to", .object [(js "address", .string (js "You@Y.example"))]),
          (js "replyTo", .object [(js "address", .string (js "Box@Z.example"))]),
          (js "attachments",
            .array [.object [(js "id", .string (js "0190A000-0000-7000-8000-00000000000F")),
            (js "contentId", .string (js " logo "))]])])) = .ok value ∧
      validateMessageV2Body CaseData.reference.toLowerCase
        ⟨true, 10, 10, 2, [], true, true, none⟩ (some value.toJson) = .ok value := by
  have hvalue : validateMessageV2Body CaseData.reference.toLowerCase
      ⟨true, 10, 10, 2, [], true, true, none⟩ (some (.object [
        (js "text", .string (js "Hi")), (js "extra", .number (js "1")),
        (js "from", .object [(js "address", .string (js " Me@X.example ")),
          (js "name", .string (js " "))]),
        (js "to", .object [(js "address", .string (js "You@Y.example"))]),
        (js "replyTo", .object [(js "address", .string (js "Box@Z.example"))]),
        (js "attachments",
          .array [.object [(js "id", .string (js "0190A000-0000-7000-8000-00000000000F")),
          (js "contentId", .string (js " logo "))]])])) =
      .ok ⟨some (js "Hi"), none, none, ⟨js "me@x.example", none⟩, some [⟨js "you@y.example", none⟩],
        ⟨js "box@z.example", none⟩, none,
        some [⟨js "0190a000-0000-7000-8000-00000000000f", some (js "logo")⟩]⟩ := by decide +kernel
  exact ⟨_, hvalue, (normalization_canonical CaseData.reference _).2.1 _ _ hvalue⟩

end ResendConversation
