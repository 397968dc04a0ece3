import ResendConversation.Attachments
import ResendConversation.Normalization

/-! # Content ids

A content id reaches the service from a request, through `normalizeAttachmentRefs`, and from the
provider, through `normalizeContentId`.  The class `[s<>]` of the request check is a slip for
`[\s<>]`, the class that the provider's side has: it refuses the letter s and lets white space
inside a content id through. -/

namespace ResendConversation

open JsString Json

/-- What a content id is meant to be: a header-safe token of at most 255 characters. -/
structure IsContentId (s : JsString) : Prop where
  safe : isHeaderSafeText s maxRequestContentIdLength = true
  nonempty : s ≠ []
  token : ∀ c ∈ s, isSpace c = false ∧ isAngleBracket c = false

/-- What the request check lets through. -/
structure PassesContentIdCheck (s : JsString) : Prop where
  safe : isHeaderSafeText s maxRequestContentIdLength = true
  nonblank : trim s ≠ []
  unrefused : ∀ c ∈ s, c ≠ 115 ∧ isAngleBracket c = false

/-- The content ids that a list of references carries. -/
def contentIds (items : List Json) : List Json := items.filterMap fun item =>
  field "contentId" (some item)

/-- The references are well formed but for their content ids. -/
structure References (lower : JsString → JsString) (config : Config) (items : List Json) :
    Prop where
  enabled : config.attachmentsEnabled = true
  count : items.length ≤ config.maxCount
  ids : ∃ texts : List JsString,
    items.map (fun item => field "id" (some item)) = texts.map (fun text => some (.string text)) ∧
      (∀ text ∈ texts, isUuid text = true) ∧ (texts.map lower).Nodup

/-- Content ids of the grammar are accepted, and what is returned is in the grammar and is what
the provider's side would store. -/
structure ContentIdsKept (lower : JsString → JsString) (config : Config) (fieldName : JsString)
    (items : List Json) : Prop where
  accepted : (∀ value ∈ contentIds items, ∃ s, value = .string s ∧ IsContentId s) →
    ∃ refs, normalizeAttachmentRefs lower config (some (.array items)) fieldName = .ok refs
  returned : ∀ refs, normalizeAttachmentRefs lower config (some (.array items)) fieldName =
    .ok (some refs) → ∀ ref ∈ refs, ∀ t, ref.contentId = some t →
      t ≠ [] ∧ (∀ c ∈ t, isSpace c = false ∧ isAngleBracket c = false) ∧
        normalizeContentId (some t) = some t

/-! ### The request check -/

theorem contentIdText_string {s t : JsString} :
    contentIdText (.string s) = some t ↔ PassesContentIdCheck s ∧ t = trim s := by
  rw [contentIdText_eq_some]
  constructor
  · rintro ⟨s', hs, hsafe, hrefused, ht, hne⟩
    cases hs
    refine ⟨⟨hsafe, ht ▸ hne, fun c hc => ?_⟩, ht.symm⟩
    have := hrefused c hc
    simpa [isRefusedInContentId] using this
  · rintro ⟨hs, rfl⟩
    refine ⟨s, rfl, hs.safe, fun c hc => ?_, rfl, hs.nonblank⟩
    have := hs.unrefused c hc
    simpa [isRefusedInContentId] using this

/-- An accepted reference, but for the repetition of its identifier. -/
def Accepts (lower : JsString → JsString) (item : Json) (ref : AttachmentRef) : Prop :=
  ∃ text, asString (field "id" (some item)) = some text ∧ isUuid text = true ∧ lower text = ref.id ∧
    (field "contentId" (some item)).map contentIdText = ref.contentId.map some

theorem normalizeAttachmentEntries_eq_ok {lower : JsString → JsString} {fieldName : JsString}
    {items : List Json} :
    ∀ {seen : List JsString} {i : ℕ} {refs : List AttachmentRef},
      normalizeAttachmentEntries lower fieldName seen i (items.map some) = .ok refs ↔
        List.Forall₂ (Accepts lower) items refs ∧ (refs.map AttachmentRef.id).Nodup ∧
          ∀ ref ∈ refs, ref.id ∉ seen := by
  induction items with
  | nil =>
      intro seen i refs
      simp only [List.map_nil, normalizeAttachmentEntries, Except.ok.injEq,
        List.forall₂_nil_left_iff]
      constructor
      · rintro rfl
        simp
      · exact fun h => h.1.symm
  | cons item items ih =>
      intro seen i refs
      simp only [List.map_cons, normalizeAttachmentEntries, Except.bind_eq_ok,
        Except.pure_eq_ok, ih, normalizeAttachmentRef_eq_ok]
      constructor
      · rintro ⟨ref, ⟨text, htext, huuid, hid, hseen, hcontent⟩, rest, ⟨hrest, hnodup, hfresh⟩, rfl⟩
        refine ⟨.cons ⟨text, htext, huuid, hid, hcontent⟩ hrest, ?_, ?_⟩
        · rw [List.map_cons, List.nodup_cons]
          refine ⟨fun hmem => ?_, hnodup⟩
          obtain ⟨r, hr, hrid⟩ := List.mem_map.mp hmem
          exact hfresh r hr (by simp [hrid])
        · intro r hr
          cases List.mem_cons.mp hr with
          | inl heq => exact heq ▸ hseen
          | inr hr => exact fun hmem => hfresh r hr (List.mem_append_left _ hmem)
      · rintro ⟨hall, hnodup, hfresh⟩
        cases hall with
        | @cons _ ref _ rest haccepts hrest =>
            obtain ⟨text, htext, huuid, hid, hcontent⟩ := haccepts
            rw [List.map_cons, List.nodup_cons] at hnodup
            refine ⟨ref, ⟨text, htext, huuid, hid, hfresh ref List.mem_cons_self, hcontent⟩, rest,
              ⟨hrest, hnodup.2, fun r hr hmem => ?_⟩, rfl⟩
            cases List.mem_append.mp hmem with
            | inl hmem => exact hfresh r (List.mem_cons_of_mem _ hr) hmem
            | inr hmem =>
                have heq : r.id = ref.id := by simpa using hmem
                exact hnodup.1 (heq ▸ List.mem_map_of_mem hr)

section
variable {lower : JsString → JsString} {config : Config} {fieldName : JsString} {items : List Json}

theorem normalizeAttachmentRefs_array (h : References lower config items)
    {r : Option (List AttachmentRef)} :
    normalizeAttachmentRefs lower config (some (.array items)) fieldName = .ok r ↔
      ∃ refs, (List.Forall₂ (Accepts lower) items refs ∧ (refs.map AttachmentRef.id).Nodup) ∧
        orUndefined refs = r := by
  simp only [normalizeAttachmentRefs, Except.bind_eq_ok, check_eq_ok, Except.pure_eq_ok,
    normalizeAttachmentEntries_eq_ok]
  constructor
  · rintro ⟨_, -, _, -, refs, ⟨hall, hnodup, -⟩, hr⟩
    exact ⟨refs, ⟨hall, hnodup⟩, hr⟩
  · rintro ⟨refs, ⟨hall, hnodup⟩, hr⟩
    exact ⟨(), h.enabled, (), decide_eq_true h.count, refs, ⟨hall, hnodup, by simp⟩, hr⟩

theorem forall₂_left {α β : Type} {R : α → β → Prop} {as : List α} {bs : List β}
    (h : List.Forall₂ R as bs) {a : α} (ha : a ∈ as) : ∃ b ∈ bs, R a b := by
  induction h with
  | nil => cases ha
  | @cons a' b' _ bs hab _ ih =>
      cases List.mem_cons.mp ha with
      | inl heq => exact ⟨b', List.mem_cons_self, heq ▸ hab⟩
      | inr ha =>
          obtain ⟨b, hb, hr⟩ := ih ha
          exact ⟨b, List.mem_cons_of_mem _ hb, hr⟩

/-- A list of references whose content ids are strings that pass the check is accepted. -/
theorem forall₂_accepts {texts : List JsString} :
    ∀ {items : List Json},
      items.map (fun item => field "id" (some item)) = texts.map (fun text => some (.string text)) →
      (∀ text ∈ texts, isUuid text = true) →
      (∀ value ∈ contentIds items, ∃ s, value = .string s ∧ PassesContentIdCheck s) →
        ∃ refs, List.Forall₂ (Accepts lower) items refs ∧
          refs.map AttachmentRef.id = texts.map lower := by
  induction texts with
  | nil =>
      intro items hids _ _
      rw [List.map_nil, List.map_eq_nil_iff] at hids
      exact ⟨[], hids ▸ .nil, rfl⟩
  | cons text texts ih =>
      intro items hids huuids hchecked
      cases items with
      | nil => cases hids
      | cons item items =>
          rw [List.map_cons, List.map_cons, List.cons.injEq] at hids
          have hmem : ∀ value ∈ contentIds items, value ∈ contentIds (item :: items) := by
            intro value hvalue
            obtain ⟨a, ha, hcontent⟩ := List.mem_filterMap.mp hvalue
            exact List.mem_filterMap.mpr ⟨a, List.mem_cons_of_mem _ ha, hcontent⟩
          obtain ⟨refs, hrefs, hmap⟩ := ih hids.2 (fun t ht => huuids t (List.mem_cons_of_mem _ ht))
            fun value hvalue => hchecked value (hmem value hvalue)
          have hid : asString (field "id" (some item)) = some text := by rw [hids.1]; rfl
          have huuid := huuids text List.mem_cons_self
          cases hcontent : field "contentId" (some item) with
          | none =>
              refine ⟨⟨lower text, none⟩ :: refs, .cons ⟨text, hid, huuid, rfl, ?_⟩ hrefs, ?_⟩
              · rw [hcontent]; rfl
              · rw [List.map_cons, hmap, List.map_cons]
          | some value =>
              obtain ⟨s, rfl, hs⟩ := hchecked value
                (List.mem_filterMap.mpr ⟨item, List.mem_cons_self, hcontent⟩)
              refine ⟨⟨lower text, some (trim s)⟩ :: refs,
                .cons ⟨text, hid, huuid, rfl, ?_⟩ hrefs, ?_⟩
              · rw [hcontent, Option.map_some, contentIdText_string.mpr ⟨hs, rfl⟩]; rfl
              · rw [List.map_cons, hmap, List.map_cons]

/-- An accepted reference has the trimmed content id of its item. -/
theorem Accepts.contentId {item : Json} {ref : AttachmentRef} (h : Accepts lower item ref)
    {value : Json} (hvalue : field "contentId" (some item) = some value) :
    ∃ s, value = .string s ∧ PassesContentIdCheck s ∧ ref.contentId = some (trim s) := by
  obtain ⟨_, -, -, -, hcontent⟩ := h
  rw [hvalue, Option.map_some] at hcontent
  cases hc : ref.contentId with
  | none => rw [hc] at hcontent; cases hcontent
  | some t =>
      rw [hc, Option.map_some, Option.some.injEq] at hcontent
      obtain ⟨s, rfl, -⟩ := contentIdText_eq_some.mp hcontent
      obtain ⟨hs, rfl⟩ := contentIdText_string.mp hcontent
      exact ⟨s, rfl, hs, rfl⟩

theorem References.accepted_iff (h : References lower config items) :
    (∃ refs, normalizeAttachmentRefs lower config (some (.array items)) fieldName = .ok refs) ↔
      ∀ value ∈ contentIds items, ∃ s, value = .string s ∧ PassesContentIdCheck s := by
  simp only [normalizeAttachmentRefs_array h]
  constructor
  · rintro ⟨_, refs, ⟨hall, -⟩, -⟩ value hvalue
    obtain ⟨item, hitem, hcontent⟩ := List.mem_filterMap.mp hvalue
    obtain ⟨ref, -, haccepts⟩ := forall₂_left hall hitem
    obtain ⟨s, hs, hpasses, -⟩ := haccepts.contentId hcontent
    exact ⟨s, hs, hpasses⟩
  · intro hchecked
    obtain ⟨texts, hids, huuids, hnodup⟩ := h.ids
    obtain ⟨refs, hall, hmap⟩ := @forall₂_accepts lower texts _ hids huuids hchecked
    exact ⟨_, refs, ⟨hall, hmap ▸ hnodup⟩, rfl⟩

/-- A list with a content id is not returned as `undefined`. -/
theorem References.accepted_some (h : References lower config items) (fieldName : JsString)
    (hchecked : ∀ value ∈ contentIds items, ∃ s, value = .string s ∧ PassesContentIdCheck s)
    {value : Json} (hvalue : value ∈ contentIds items) :
    ∃ refs, normalizeAttachmentRefs lower config (some (.array items)) fieldName =
      .ok (some refs) := by
  obtain ⟨r, hr⟩ := (@References.accepted_iff lower config fieldName items h).mpr hchecked
  obtain ⟨refs, ⟨hall, hnodup⟩, -⟩ := (normalizeAttachmentRefs_array h).mp hr
  obtain ⟨item, hitem, -⟩ := List.mem_filterMap.mp hvalue
  obtain ⟨ref, href, -⟩ := forall₂_left hall hitem
  have hsome : orUndefined refs = some refs :=
    orUndefined_eq_some.mpr ⟨rfl, List.ne_nil_of_mem href⟩
  exact ⟨refs, (normalizeAttachmentRefs_array h).mpr ⟨refs, ⟨hall, hnodup⟩, hsome⟩⟩

/-- The content ids of a returned list are the trimmed content ids of its items. -/
theorem References.returned_iff (h : References lower config items) {refs : List AttachmentRef}
    (hrefs : normalizeAttachmentRefs lower config (some (.array items)) fieldName = .ok (some refs))
    (t : JsString) :
    (∃ ref ∈ refs, ref.contentId = some t) ↔
      ∃ s, .string s ∈ contentIds items ∧ PassesContentIdCheck s ∧ t = trim s := by
  obtain ⟨refs', ⟨hall, -⟩, hr⟩ := (normalizeAttachmentRefs_array h).mp hrefs
  obtain ⟨rfl, -⟩ := orUndefined_eq_some.mp hr
  constructor
  · rintro ⟨ref, href, ht⟩
    obtain ⟨item, hitem, haccepts⟩ := forall₂_left hall.flip href
    have haccepts : Accepts lower item ref := haccepts
    obtain ⟨text, htext, huuid, hid, hcontent⟩ := id haccepts
    rw [ht, Option.map_some, Option.map_eq_some_iff] at hcontent
    obtain ⟨value, hvalue, -⟩ := hcontent
    obtain ⟨s, rfl, hs, href⟩ := haccepts.contentId hvalue
    rw [ht, Option.some.injEq] at href
    exact ⟨s, List.mem_filterMap.mpr ⟨item, hitem, hvalue⟩, hs, href⟩
  · rintro ⟨s, hmem, -, rfl⟩
    obtain ⟨item, hitem, hvalue⟩ := List.mem_filterMap.mp hmem
    obtain ⟨ref, href, haccepts⟩ := forall₂_left hall hitem
    obtain ⟨s', hs', -, hcontent⟩ := haccepts.contentId hvalue
    cases hs'
    exact ⟨ref, href, hcontent⟩

end

/-! ### The provider's side -/

theorem head?_ne_of_forall {s : JsString} {a : UInt16} (h : ∀ c ∈ s, c ≠ a) : s.head? ≠ some a := by
  intro hhead
  exact h a (List.mem_of_mem_head? hhead) rfl

/-- A trimmed content id that passes the check and has no white space is stored as it is. -/
theorem PassesContentIdCheck.normalizeContentId_trim {s : JsString} (h : PassesContentIdCheck s)
    (hspace : ∀ c ∈ trim s, isSpace c = false) :
    normalizeContentId (some (trim s)) = some (trim s) := by
  have hbrackets : ∀ c ∈ trim s, c ≠ 60 ∧ c ≠ 62 := by
    intro c hc
    have := (h.unrefused c (trim_subset s c hc)).2
    simpa [isAngleBracket] using this
  have hhead : (trim s).head? ≠ some 60 := head?_ne_of_forall fun c hc => (hbrackets c hc).1
  have hlast : (trim s).getLast? ≠ some 62 := by
    intro hlast
    exact (hbrackets 62 (List.mem_of_mem_getLast? hlast)).2 rfl
  have hsafe : isHeaderSafeText (trim s) maxRequestContentIdLength = true :=
    isHeaderSafeText_trim h.safe
  have hlength : (trim s).length ≤ maxContentIdLength := by
    rw [isHeaderSafeText, Bool.and_eq_true] at hsafe
    exact of_decide_eq_true hsafe.1
  have hclean : (trim s).any (fun c => isSpace c || c == 60 || c == 62) = false := by
    rw [List.any_eq_false]
    intro c hc
    simp [hspace c hc, hbrackets c hc]
  simp only [normalizeContentId, Option.bind_some, if_neg hhead, if_neg hlast, trim_trim, hclean,
    Bool.or_false]
  rw [if_neg (by simpa using h.nonblank), List.take_of_length_le hlength]

/-! ### The grammar -/

/-- Where the slip does no harm: no content id of the grammar has the letter s, and none that
passes the check has white space inside. -/
structure ContentIdsSpared (items : List Json) : Prop where
  letters : (∀ value ∈ contentIds items, ∃ s, value = .string s ∧ IsContentId s) →
    ∀ s, .string s ∈ contentIds items → 115 ∉ s
  spaces : (∀ value ∈ contentIds items, ∃ s, value = .string s ∧ PassesContentIdCheck s) →
    ∀ s, .string s ∈ contentIds items → ∀ c ∈ trim s, isSpace c = false

theorem IsContentId.trim_eq {s : JsString} (h : IsContentId s) : trim s = s :=
  Trimmed.trim ⟨fun c hc => (h.token c (List.mem_of_mem_head? hc)).1,
    fun c hc => (h.token c (List.mem_of_mem_getLast? hc)).1⟩

theorem IsContentId.passes_iff {s : JsString} (h : IsContentId s) : PassesContentIdCheck s ↔
    115 ∉ s := by
  constructor
  · exact fun hs hmem => (hs.unrefused 115 hmem).1 rfl
  · intro hs
    refine ⟨h.safe, ?_, fun c hc => ⟨fun heq => hs (heq ▸ hc), (h.token c hc).2⟩⟩
    rw [h.trim_eq]
    exact h.nonempty

/-- A list of references keeps the grammar of content ids exactly where the slip does no harm. -/
theorem content_ids_kept_iff (lower : JsString → JsString) (config : Config) (fieldName : JsString)
    (items : List Json) (h : References lower config items) :
    ContentIdsKept lower config fieldName items ↔ ContentIdsSpared items := by
  constructor
  · intro hkept
    refine ⟨fun hgrammar s hs => ?_, fun hchecked s hs c hc => ?_⟩
    · obtain ⟨s', hs', hpasses⟩ := h.accepted_iff.mp (hkept.accepted hgrammar) (.string s) hs
      cases hs'
      exact fun hmem => (hpasses.unrefused 115 hmem).1 rfl
    · obtain ⟨refs, hrefs⟩ := h.accepted_some fieldName hchecked hs
      obtain ⟨s', hs', hpasses⟩ := hchecked _ hs
      cases hs'
      obtain ⟨ref, href, ht⟩ := (h.returned_iff hrefs (trim s)).mpr ⟨s, hs, hpasses, rfl⟩
      exact ((hkept.returned refs hrefs ref href _ ht).2.1 c hc).1
  · intro hspared
    refine ⟨fun hgrammar => h.accepted_iff.mpr fun value hvalue => ?_,
      fun refs hrefs ref href t ht => ?_⟩
    · obtain ⟨s, rfl, hs⟩ := hgrammar value hvalue
      exact ⟨s, rfl, hs.passes_iff.mpr (hspared.letters hgrammar s hvalue)⟩
    · obtain ⟨s, hmem, hs, rfl⟩ := (h.returned_iff hrefs t).mp ⟨ref, href, ht⟩
      have hspace := hspared.spaces (h.accepted_iff.mp ⟨_, hrefs⟩) s hmem
      refine ⟨hs.nonblank, fun c hc => ⟨hspace c hc, ?_⟩, hs.normalizeContentId_trim hspace⟩
      exact (hs.unrefused c (trim_subset s c hc)).2

/-- A list with one reference to an attachment. -/
def oneReference (contentId : JsString) : List Json :=
  [.object [(js "id", .string (js "0190a000-0000-7000-8000-00000000000f")),
    (js "contentId", .string contentId)]]

/-- The service with attachments. -/
def attachmentsConfig : Config := ⟨true, 10, 10, 2, [], true, true, none⟩

theorem references_oneReference (contentId : JsString) :
    References CaseData.reference.toLowerCase attachmentsConfig (oneReference contentId) :=
  ⟨rfl, Nat.succ_le_succ (Nat.zero_le 1), [js "0190a000-0000-7000-8000-00000000000f"], rfl, by
    decide +kernel, List.nodup_singleton _⟩

/-- The content id `logos` is refused. -/
theorem content_id_refused :
    ¬∀ (u : CaseData) (config : Config) (fieldName : JsString) (items : List Json),
      References u.toLowerCase config items →
        ContentIdsKept u.toLowerCase config fieldName items := by
  intro hkept
  obtain ⟨refs, hrefs⟩ :=
    (hkept CaseData.reference attachmentsConfig (js "attachments") (oneReference (js "logos"))
    (references_oneReference _)).accepted fun value hvalue => by
      have hmem : value ∈ [Json.string (js "logos")] := hvalue
      rw [List.mem_singleton] at hmem
      exact ⟨js "logos", hmem, ⟨by decide, by decide, forall_mem_of_all (by decide)⟩⟩
  have hrefused : normalizeAttachmentRefs CaseData.reference.toLowerCase attachmentsConfig
      (some (.array (oneReference (js "logos")))) (js "attachments") =
      .error
        (js "attachments[0].contentId must be a header-safe token of at most 255 characters") := by
    decide +kernel
  rw [hrefused] at hrefs
  cases hrefs

theorem content_ids_kept_reference :
    ContentIdsKept CaseData.reference.toLowerCase attachmentsConfig (js "attachments")
      (oneReference (js "logo")) ∧
      ¬ContentIdsKept CaseData.reference.toLowerCase attachmentsConfig (js "attachments")
        (oneReference (js "a b")) := by
  constructor
  · refine (content_ids_kept_iff _ _ _ _ (references_oneReference _)).mpr
      ⟨fun _ s hs => ?_, fun _ s hs => ?_⟩
    · have hmem : Json.string s ∈ [Json.string (js "logo")] := hs
      cases List.mem_singleton.mp hmem
      decide
    · have hmem : Json.string s ∈ [Json.string (js "logo")] := hs
      cases List.mem_singleton.mp hmem
      exact forall_mem_of_all (by decide)
  · intro hkept
    have hspared := (content_ids_kept_iff _ _ _ _ (references_oneReference _)).mp hkept
    have hspace := hspared.spaces (fun value hvalue => by
      have hmem : value ∈ [Json.string (js "a b")] := hvalue
      exact ⟨js "a b", List.mem_singleton.mp hmem,
        ⟨by decide, by decide, forall_mem_of_all (by decide)⟩⟩) (js "a b")
      List.mem_cons_self 32 (by decide)
    cases hspace

end ResendConversation
