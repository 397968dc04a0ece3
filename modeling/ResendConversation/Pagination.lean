import ResendConversation.Listings
import ResendConversation.UniqueLists

/-! # Pages of the listings

A client reads a listing by passing the cursor of each page to the next request.  The handlers
answer a position with the page behind it (`getSummary_eq`, `getUnassigned_eq`,
`getConversationResponse_eq`), so what a client gets is what a reader of the pages gets.  Over a
database that stays as it is, the pages hold every matching row once, in the order of the listing,
and the last one comes; over one that changes between the requests, a conversation that keeps its
place is still listed exactly once. -/

namespace ResendConversation

open Foundation JsString

variable {Digest : Type} {db : Database Digest} {params : SearchParams}
    {other : JsString → Option Time}

/-! ### Parameters -/

namespace SearchParams

theorem get_withBefore (params : SearchParams) (cursor : Option JsString) :
    (params.withBefore cursor).get "before" = cursor := by
  have hnone : (params.filter fun p => p.1 != js "before").find? (fun p => p.1 == js "before") =
      none := by
    rw [List.find?_eq_none]
    intro p hp
    have hne := (List.mem_filter.mp hp).2
    simpa using hne
  unfold get withBefore
  rw [List.find?_append, hnone, Option.none_or]
  cases cursor with
  | none => rfl
  | some c => simp

theorem getAll_withBefore (params : SearchParams) (cursor : Option JsString) {name : String}
    (h : js name ≠ js "before") : (params.withBefore cursor).getAll name = params.getAll name := by
  have hcursor : ((cursor.map fun c => (js "before", c)).toList.filter fun p => p.1 == js name) =
      [] := by
    rw [List.filter_eq_nil_iff]
    intro p hp hname
    obtain ⟨c, -, rfl⟩ := Option.map_eq_some_iff.mp (Option.mem_toList.mp hp)
    exact h (eq_of_beq hname).symm
  unfold getAll withBefore
  rw [List.filter_append, hcursor, List.append_nil, List.filter_filter]
  congr 1
  refine List.filter_congr fun p _ => ?_
  by_cases hp : p.1 = js name
  · simp [hp, h]
  · simp [hp]

theorem get_eq_head? (params : SearchParams) (name : String) :
    params.get name = (params.getAll name).head? := by
  rw [get, getAll, List.head?_map, List.head?_filter]

theorem get_withBefore_of_ne (params : SearchParams) (cursor : Option JsString) {name : String}
    (h : js name ≠ js "before") : (params.withBefore cursor).get name = params.get name := by
  rw [get_eq_head?, getAll_withBefore params cursor h, get_eq_head?]

end SearchParams

theorem getPageLimit_withBefore (params : SearchParams) (cursor : Option JsString) :
    getPageLimit (params.withBefore cursor) = getPageLimit params := by
  rw [getPageLimit, params.get_withBefore_of_ne cursor (by decide), getPageLimit]

/-- The page limit lies between 1 and 100, whatever the parameter is. -/
theorem getPageLimit_bounds (params : SearchParams) :
    0 < getPageLimit params ∧ getPageLimit params ≤ 100 := by
  unfold getPageLimit
  split
  · omega
  · split
    · omega
    · omega

/-! ### Positions -/

/-- A time that can be written. -/
def InDateRange (t : ℤ) : Prop := -maxTime ≤ t ∧ t ≤ maxTime

theorem toISOString_of_inDateRange {t : ℤ} (h : InDateRange t) :
    toISOString t = some (isoText t) := if_pos h

/-- The cursor of a position that has one. -/
def cursorOf (time : Time) (id : Uuid) : JsString := (encodeCursor time id).getD []

theorem encodeCursor_eq {time : Time} (h : InDateRange time) (id : Uuid) :
    encodeCursor time id = some (cursorOf time id) := by
  unfold cursorOf encodeCursor
  rw [toISOString_of_inDateRange h]
  rfl

theorem decodeCursor_cursorOf {time : Time} {id : Uuid} (htime : InDateRange time)
    (hid : IsUuid id) :
    decodeCursor other (cursorOf time id) = some (time, id) :=
  decodeCursor_encodeCursor hid (encodeCursor_eq htime id)

theorem cursorOf_ne_nil {time : Time} {id : Uuid} (htime : InDateRange time) (hid : IsUuid id) :
    cursorOf time id ≠ [] := by
  intro h
  have hdecode : decodeCursor (fun _ => none) (cursorOf time id) = some (time, id) :=
    decodeCursor_cursorOf htime hid
  have hempty : decodeCursor (fun _ => none) [] = none := by decide
  rw [h, hempty] at hdecode
  cases hdecode

/-- The position of a request with the cursor of a position. -/
theorem readCursor_withBefore {pos : Option (Time × Uuid)}
    (h : ∀ p ∈ pos, InDateRange p.1 ∧ IsUuid p.2) :
    readCursor other (params.withBefore (pos.map fun p => cursorOf p.1 p.2)) = some pos := by
  rw [readCursor, SearchParams.get_withBefore]
  cases pos with
  | none => rfl
  | some p =>
      have hp := h p rfl
      have htext : orNull (cursorOf p.1 p.2) = some (cursorOf p.1 p.2) := by
        rw [orNull, if_neg]
        rw [List.isEmpty_iff]
        exact cursorOf_ne_nil hp.1 hp.2
      simp only [Option.map_some, Option.bind_some, htext, decodeCursor_cursorOf hp.1 hp.2]

/-! ### Pages -/

theorem mapM_eq_some {α β : Type} {f : α → Option β} {g : α → β} {rows : List α}
    (h : ∀ r ∈ rows, f r = some (g r)) :
    rows.mapM f = some (rows.map g) := by
  induction rows with
  | nil => rfl
  | cons r rows ih =>
      have hr := h r List.mem_cons_self
      have hrest := ih fun r' hr' => h r' (List.mem_cons_of_mem r hr')
      simp [List.mapM_cons, hr, hrest]

/-- One row more than the limit tells whether rows are left. -/
theorem lt_length_take {α : Type} (limit : ℕ) (left : List α) :
    limit < (left.take (limit + 1)).length ↔ limit < left.length := by
  rw [List.length_take]
  omega

theorem take_take_succ {α : Type} (limit : ℕ) (left : List α) :
    (left.take (limit + 1)).take limit = left.take limit := by
  rw [List.take_take, Nat.min_eq_left (Nat.le_succ limit)]

/-- The cursor of a page is that of the position after it. -/
theorem nextCursor_firstPage {Row κ : Type} {key : Row → κ} {limit : ℕ} {left : List Row}
    {encode : Row → Option JsString} {cursor : κ → JsString}
    (h : ∀ r ∈ left, encode r = some (cursor (key r))) :
    nextCursor (decide (limit < left.length)) (left.take limit).getLast? encode =
      some ((Keyset.firstPage key limit left).next.map cursor) := by
  unfold nextCursor Keyset.firstPage
  by_cases hmore : limit < left.length
  · cases hlast : (left.take limit).getLast? with
    | none => simp [hmore]
    | some r =>
        have hr := h r (List.mem_of_mem_take (List.mem_of_getLast? hlast))
        simp [hmore, hr]
  · simp [hmore]

theorem isSome_next {Row κ : Type} [LinearOrder κ] {key : Row → κ} {limit : ℕ} (hlimit : 0 < limit)
    (left : List Row) :
    (Keyset.firstPage key limit left).next.isSome = decide (limit < left.length) := by
  unfold Keyset.firstPage
  by_cases hmore : limit < left.length
  · have hne : left.take limit ≠ [] := by
      intro hnil
      rcases List.take_eq_nil_iff.mp hnil with hzero | hnil
      · omega
      · rw [hnil, List.length_nil] at hmore
        omega
    obtain ⟨r, hr⟩ := List.getLast?_isSome.mpr hne |> Option.isSome_iff_exists.mp
    simp [hmore, hr]
  · simp [hmore]

/-! ### The summary listing -/

/-- A conversation that can be listed: its identifier is a UUID and its dates can be written. -/
structure EmailConversation.Listable (c : EmailConversation) : Prop where
  id : IsUuid c.id
  stateChangedAt : InDateRange c.stateChangedAt
  lastMessageAt : InDateRange c.lastMessageAt

/-- Positions of conversation listings that have a cursor. -/
def ValidPosition (k : ℤ ×ₗ ℕ) : Prop := InDateRange (ofLex k).1 ∧ IsUuid (ofLex k).2

/-- The conversations of a summary, in its order. -/
def summaryRows (db : Database Digest) (selected : List ConversationState) :
    List EmailConversation :=
  Keyset.sortedRows db.conversations (fun c => selected.contains c.state) summaryKey

/-- The item of a conversation whose dates can be written. -/
def listedSummary (c : EmailConversation) : SummaryItem :=
  SummaryItem.of c (isoText c.stateChangedAt) (isoText c.lastMessageAt)

def renderSummary (selected : List ConversationState) (db : Database Digest)
    (page : Keyset.Page EmailConversation (ℤ ×ₗ ℕ)) : SummaryResponse where
  count := (selected.map fun state => db.conversations.count fun c => c.state == state).sum
  counts := stateCounts db
  conversations := page.rows.map listedSummary
  hasMore := page.next.isSome
  before := page.next.map fun k => cursorOf (ofLex k).1 (ofLex k).2

theorem summaryItem_eq {c : EmailConversation} (h : c.Listable) :
    summaryItem c = some (listedSummary c) := by
  unfold summaryItem
  rw [toISOString_of_inDateRange h.stateChangedAt, toISOString_of_inDateRange h.lastMessageAt]
  rfl

theorem summaryKey_injective (db : Database Digest) :
    ∀ c ∈ db.conversations, ∀ d ∈ db.conversations, summaryKey c = summaryKey d → c = d := by
  intro c hc d hd h
  exact Table.key_inj hc hd (congrArg (fun k => (ofLex k).2) h)

/-- A request with the cursor of a position is answered with the page behind it. -/
theorem getSummary_eq {toUpperCase : JsString → JsString} {selected : List ConversationState}
    (hfilter : parseStateFilter toUpperCase (params.getAll "state") = some selected)
    (hrows : ∀ c ∈ db.conversations, c.Listable) {pos : Option (ℤ ×ₗ ℕ)}
    (hpos : ∀ k ∈ pos, ValidPosition k) :
    getSummary toUpperCase other db
      (params.withBefore (pos.map fun k => cursorOf (ofLex k).1 (ofLex k).2)) =
      .ok (renderSummary selected db
        (Keyset.page summaryKey (getPageLimit params) (summaryRows db selected) pos)) := by
  have hread :
      readCursor other (params.withBefore (pos.map fun k => cursorOf (ofLex k).1 (ofLex k).2)) =
      some (pos.map ofLex) := by
    have hvalid : ∀ p ∈ pos.map ofLex, InDateRange p.1 ∧ IsUuid p.2 := by
      intro p hp
      obtain ⟨k, hk, rfl⟩ := Option.map_eq_some_iff.mp hp
      exact hpos k hk
    have hcursor := @readCursor_withBefore params other (pos.map ofLex) hvalid
    rwa [Option.map_map] at hcursor
  have hquery : Keyset.sortedRows db.conversations (fun c => selected.contains c.state &&
      (pos.map ofLex).all fun b => decide (b.1 < c.stateChangedAt) ||
        (c.stateChangedAt == b.1 && decide (b.2 < c.id))) summaryKey =
      Keyset.rest summaryKey (summaryRows db selected) pos := by
    refine Keyset.sortedRows_behind (summaryKey_injective db) fun c => ?_
    rw [Bool.and_eq_true]
    refine and_congr_right fun _ => ?_
    cases pos with
    | none => simp
    | some k =>
        rw [Option.map_some, Option.all_some, Bool.or_eq_true, Bool.and_eq_true, beq_iff_eq,
          decide_eq_true_eq, decide_eq_true_eq, Keyset.behind_some, summaryKey, Prod.Lex.lt_iff]
        exact or_congr_right (and_congr_left fun _ => eq_comm)
  have hleft : ∀ c ∈ Keyset.rest summaryKey (summaryRows db selected) pos, c.Listable := by
    intro c hc
    exact hrows c (Keyset.mem_sortedRows.mp (Keyset.mem_rest.mp hc).1).1
  have hitems :
      ((Keyset.rest summaryKey (summaryRows db selected) pos).take (getPageLimit params)).mapM
      summaryItem =
      some (((Keyset.rest summaryKey (summaryRows db selected) pos).take (getPageLimit params)).map
        listedSummary) :=
    mapM_eq_some fun c hc => summaryItem_eq (hleft c (List.mem_of_mem_take hc))
  have hcursor := @nextCursor_firstPage _ _ summaryKey (getPageLimit params) _ encodeSummaryCursor
    (fun k => cursorOf (ofLex k).1 (ofLex k).2) fun c hc =>
      encodeCursor_eq (hleft c hc).stateChangedAt c.id
  unfold getSummary
  rw [params.getAll_withBefore _ (by decide), hfilter]
  dsimp only
  rw [hread]
  dsimp only
  rw [hquery, getPageLimit_withBefore, take_take_succ, hitems]
  simp only [lt_length_take]
  rw [hcursor]
  dsimp only [orThrown, bind, Except.bind, pure, Except.pure]
  rw [renderSummary, Keyset.page, isSome_next (getPageLimit_bounds params).1]
  rfl

theorem EmailConversation.Listable.summaryPosition {c : EmailConversation} (h : c.Listable) :
    ValidPosition (summaryKey c) := ⟨h.stateChangedAt, h.id⟩

/-- The summary listing over databases whose conversations can be listed. -/
theorem renders_summary {toUpperCase : JsString → JsString} {selected : List ConversationState}
    (hfilter : parseStateFilter toUpperCase (params.getAll "state") = some selected)
    {dbs : List (Database Digest)} (hrows : ∀ db ∈ dbs, ∀ c ∈ db.conversations, c.Listable) :
    Keyset.Renders summaryKey (getPageLimit params) (fun db => summaryRows db selected)
      (fun db cursor => getSummary toUpperCase other db (params.withBefore cursor))
        SummaryResponse.before
      (fun k => cursorOf (ofLex k).1 (ofLex k).2) (renderSummary selected) dbs where
  limit_pos := (getPageLimit_bounds params).1
  sorted := fun db _ => Keyset.pairwise_sortedRows (summaryKey_injective db) _
  next_eq := fun _ _ => rfl
  serve_eq := by
    intro db hdb pos hpos
    refine getSummary_eq hfilter (hrows db hdb) fun k hk => ?_
    obtain ⟨db', hdb', c, hc, rfl⟩ := hpos k hk
    exact (hrows db' hdb' c (Keyset.mem_sortedRows.mp hc).1).summaryPosition

theorem length_filter_contains_cons {α β : Type} [DecidableEq β] (f : α → β) {v : β} {vs : List β}
    (h : v ∉ vs) (rows : List α) : (rows.filter fun r => (v :: vs).contains (f r)).length =
      (rows.filter fun r => f r == v).length + (rows.filter fun r => vs.contains (f r)).length := by
  induction rows with
  | nil => rfl
  | cons r rows ih =>
      by_cases heq : f r = v
      · simp [heq, h] at ih ⊢
        omega
      · by_cases hmem : f r ∈ vs
        · simp [heq, hmem] at ih ⊢
          omega
        · simp [heq, hmem] at ih ⊢
          omega

/-- The rows of distinct values, counted value by value. -/
theorem sum_length_filter {α β : Type} [DecidableEq β] (f : α → β) {vs : List β} (h : vs.Nodup)
    (rows : List α) :
    (vs.map fun v => (rows.filter fun r => f r == v).length).sum =
      (rows.filter fun r => vs.contains (f r)).length := by
  induction vs with
  | nil => simp
  | cons v vs ih =>
      rw [List.nodup_cons] at h
      rw [List.map_cons, List.sum_cons, ih h.2, length_filter_contains_cons f h.1]

/-- The conversations of distinct states, counted state by state. -/
theorem sum_counts {selected : List ConversationState} (h : selected.Nodup) (db : Database Digest) :
    (selected.map fun state => db.conversations.count fun c => c.state == state).sum =
      (summaryRows db selected).length :=
  calc (selected.map fun state => db.conversations.count fun c => c.state == state).sum
      = (db.conversations.rows.filter fun c => selected.contains c.state).length :=
        sum_length_filter EmailConversation.state h _
    _ = (summaryRows db selected).length := (List.perm_insertionSort _ _).length_eq.symm

theorem nodup_of_parseStateFilter {toUpperCase : JsString → JsString} {values : List JsString}
    {selected : List ConversationState} (h : parseStateFilter toUpperCase values = some selected) :
    selected.Nodup := by
  unfold parseStateFilter at h
  dsimp only at h
  split at h
  · cases h
    decide
  · obtain ⟨parsed, -, rfl⟩ := Option.map_eq_some_iff.mp h
    exact nodup_unique parsed

/-- Over a database that stays as it is, a client that follows the cursors of the summary listing
gets every conversation in a selected state exactly once, oldest change of state first and ties by
identifier, on pages within the limit that all count what the client gets. -/
theorem summary_pages_complete {toUpperCase : JsString → JsString}
    {selected : List ConversationState}
    (hfilter : parseStateFilter toUpperCase (params.getAll "state") = some selected)
    (hrows : ∀ c ∈ db.conversations, c.Listable) {n : ℕ}
    (hn : (summaryRows db selected).length < n) :
    ∃ pages, Keyset.browse
      (fun db cursor => getSummary toUpperCase other db (params.withBefore cursor))
        SummaryResponse.before (List.replicate n db) none = some pages ∧
      pages.flatMap SummaryResponse.conversations = (summaryRows db selected).map listedSummary ∧
      ∀ page ∈ pages, page.count = (summaryRows db selected).length ∧
        page.conversations.length ≤ getPageLimit params := by
  have hdbs : ∀ db' ∈ List.replicate n db, ∀ c ∈ db'.conversations, c.Listable := by
    intro db' hdb'
    rw [List.eq_of_mem_replicate hdb']
    exact hrows
  have hrenders :=
    @renders_summary Digest params other toUpperCase selected hfilter (List.replicate n db) hdbs
  have hitems : ∀ p, (renderSummary selected db p).conversations = p.rows.map listedSummary :=
    fun _ => rfl
  obtain ⟨pages, hpages, hall, hlimit⟩ := hrenders.exists_browse hitems hn
  refine ⟨pages, hpages, hall, fun page hpage => ?_⟩
  obtain ⟨q, rfl, hlength⟩ := hlimit page hpage
  refine ⟨sum_counts (nodup_of_parseStateFilter hfilter) db, ?_⟩
  rw [renderSummary, List.length_map]
  exact hlength

/-- The item of a conversation names the conversation. -/
theorem listed_iff {rows : List EmailConversation} {κ : Type} {key : EmailConversation → κ} {k : κ}
    {id : Uuid} (hids : ∀ c ∈ rows, IsUuid c.id) (hkey : ∀ c ∈ rows, key c = k → c.id = id)
    (hinj : ∀ c ∈ rows, ∀ d ∈ rows, c.id = d.id → c = d) (hk : ∃ c ∈ rows, key c = k) :
    ∀ c ∈ rows, (uuidText c.id == uuidText id) = true ↔ key c = k := by
  obtain ⟨d, hd, hdk⟩ := hk
  have hid := hkey d hd hdk
  intro c hc
  rw [beq_iff_eq]
  constructor
  · intro heq
    have hsame := uuidText_injective (hids c hc).bounded (hid ▸ (hids d hd).bounded) heq
    rw [hinj c hc d hd (hsame.trans hid.symm)]
    exact hdk
  · intro heq
    rw [hkey c hc heq]

/-- A database with three conversations, two of which changed their state at the same time. -/
def Reference.listed (id : Uuid) (stateChangedAt : Time) : EmailConversation where
  id := 0x01910000000070008000000000000000 + id
  routingToken := uuidText id
  apiVersion := some .v2
  topicType := none
  externalTopicId := none
  title := js "t"
  subject := js "s"
  participantAddress := js "p@example.com"
  participantName := none
  replyToBaseAddress := some (js "support@example.com")
  replyToRequiresAllowlist := true
  state := .awaitingUs
  stateChangedAt
  lastMessageAt := stateChangedAt
  createdAt := 0
  eventSequence := 0

def Reference.listing : Database SendRequest :=
  { Database.initial with
    conversations :=
      ⟨[Reference.listed 1 1000, Reference.listed 2 1000, Reference.listed 3 7], by decide⟩ }

theorem Reference.listed_listable {id : Uuid} {t : Time} (hid : IsUuid (Reference.listed id t).id)
    (ht : InDateRange t) : (Reference.listed id t).Listable := ⟨hid, ht, ht⟩

theorem Reference.listing_listable : ∀ c ∈ Reference.listing.conversations, c.Listable := by
  intro c hc
  have hmem : c ∈ [Reference.listed 1 1000, Reference.listed 2 1000, Reference.listed 3 7] := hc
  simp only [List.mem_cons, List.not_mem_nil, or_false] at hmem
  rcases hmem with rfl | rfl | rfl
  · exact Reference.listed_listable ⟨by decide, by decide +kernel⟩ ⟨by decide, by decide⟩
  · exact Reference.listed_listable ⟨by decide, by decide +kernel⟩ ⟨by decide, by decide⟩
  · exact Reference.listed_listable ⟨by decide, by decide +kernel⟩ ⟨by decide, by decide⟩

theorem summary_pages_complete_reference : ∃ pages, Keyset.browse
      (fun db cursor => getSummary id (fun _ => none) db
        (SearchParams.withBefore [(js "limit", js "1")] cursor))
      SummaryResponse.before (List.replicate 4 Reference.listing) none = some pages ∧
    pages.flatMap SummaryResponse.conversations =
      (summaryRows Reference.listing conversationStates).map listedSummary ∧
    ∀ page ∈ pages, page.count = (summaryRows Reference.listing conversationStates).length ∧
      page.conversations.length ≤ getPageLimit [(js "limit", js "1")] :=
  summary_pages_complete (by decide) Reference.listing_listable (by decide +kernel)

/-- While a client follows the cursors of the summary listing, the database may change between its
requests.  A conversation that stays in the selected states, without a new change of state, is on
exactly one of the pages, once. -/
theorem summary_pages_stable {toUpperCase : JsString → JsString} {selected : List ConversationState}
    (hfilter : parseStateFilter toUpperCase (params.getAll "state") = some selected)
    {dbs : List (Database Digest)} (hrows : ∀ db ∈ dbs, ∀ c ∈ db.conversations, c.Listable)
    {pages : List SummaryResponse}
    (hpages : Keyset.browse
      (fun db cursor => getSummary toUpperCase other db (params.withBefore cursor))
      SummaryResponse.before dbs none = some pages) {id : Uuid} {stateChangedAt : Time}
    (hkept : ∀ db ∈ dbs, ∃ c ∈ db.conversations, c.id = id ∧ c.stateChangedAt = stateChangedAt ∧
      c.state ∈ selected) :
    ((pages.flatMap SummaryResponse.conversations).filter fun item =>
      item.id == uuidText id).length = 1 := by
  have hk : ∀ db ∈ dbs, ∃ c ∈ summaryRows db selected,
      summaryKey c = toLex (stateChangedAt, id) := by
    intro db hdb
    obtain ⟨c, hc, hid, htime, hstate⟩ := hkept db hdb
    refine ⟨c, Keyset.mem_sortedRows.mpr ⟨hc, by simpa using hstate⟩, ?_⟩
    rw [summaryKey, hid, htime]
  have hitems : ∀ db ∈ dbs, ∀ p,
      (renderSummary selected db p).conversations = p.rows.map listedSummary :=
    fun _ _ _ => rfl
  refine (renders_summary hfilter hrows).browse_once hitems hpages hk fun db hdb => ?_
  have hmem : ∀ c ∈ summaryRows db selected, c ∈ db.conversations := fun c hc =>
    (Keyset.mem_sortedRows.mp hc).1
  refine listed_iff (fun c hc => (hrows db hdb c (hmem c hc)).id) (fun c _ h => ?_)
    (fun c hc d hd h => Table.key_inj (hmem c hc) (hmem d hd) h) (hk db hdb)
  exact congrArg (fun k => (ofLex k).2) h

/-- The third conversation has moved to the end after the first request. -/
def Reference.listingLater : Database SendRequest :=
  { Reference.listing with
    conversations :=
      ⟨[Reference.listed 1 1000, Reference.listed 2 1000, Reference.listed 3 5000], by decide⟩ }

theorem Reference.listingLater_listable :
    ∀ c ∈ Reference.listingLater.conversations, c.Listable := by
  intro c hc
  have hmem : c ∈ [Reference.listed 1 1000, Reference.listed 2 1000, Reference.listed 3 5000] := hc
  simp only [List.mem_cons, List.not_mem_nil, or_false] at hmem
  rcases hmem with rfl | rfl | rfl
  · exact Reference.listed_listable ⟨by decide, by decide +kernel⟩ ⟨by decide, by decide⟩
  · exact Reference.listed_listable ⟨by decide, by decide +kernel⟩ ⟨by decide, by decide⟩
  · exact Reference.listed_listable ⟨by decide, by decide +kernel⟩ ⟨by decide, by decide⟩

/-- The snapshots that the four requests of a client are answered from. -/
def Reference.snapshots : List (Database SendRequest) :=
  [Reference.listing, Reference.listingLater, Reference.listingLater, Reference.listingLater]

theorem Reference.snapshots_listable :
    ∀ db ∈ Reference.snapshots, ∀ c ∈ db.conversations, c.Listable := by
  intro db hdb
  simp only [Reference.snapshots, List.mem_cons, List.not_mem_nil, or_false] at hdb
  rcases hdb with rfl | rfl | rfl | rfl
  · exact Reference.listing_listable
  · exact Reference.listingLater_listable
  · exact Reference.listingLater_listable
  · exact Reference.listingLater_listable

theorem Reference.listed_kept : ∀ db ∈ Reference.snapshots, ∃ c ∈ db.conversations,
    c = Reference.listed 1 1000 := by
  decide +kernel

theorem summary_pages_stable_reference : ∃ pages, Keyset.browse
      (fun db cursor => getSummary id (fun _ => none) db
        (SearchParams.withBefore [(js "limit", js "1")] cursor))
      SummaryResponse.before Reference.snapshots none = some pages ∧
    ((pages.flatMap SummaryResponse.conversations).filter fun item =>
      item.id == uuidText (Reference.listed 1 1000).id).length = 1 := by
  obtain ⟨pages, hpages⟩ : ∃ pages, Keyset.browse
      (fun db cursor => getSummary id (fun _ => none) db
        (SearchParams.withBefore [(js "limit", js "1")] cursor))
      SummaryResponse.before Reference.snapshots none = some pages :=
        Option.isSome_iff_exists.mp (by decide +kernel)
  have hfilter : parseStateFilter id (SearchParams.getAll [(js "limit", js "1")] "state") =
      some conversationStates := by
    decide
  have hkept : ∀ db ∈ Reference.snapshots, ∃ c ∈ db.conversations, c.id =
      (Reference.listed 1 1000).id ∧ c.stateChangedAt = 1000 ∧ c.state ∈ conversationStates := by
    intro db hdb
    obtain ⟨c, hc, rfl⟩ := Reference.listed_kept db hdb
    exact ⟨_, hc, rfl, rfl, by decide⟩
  exact ⟨pages, hpages, summary_pages_stable hfilter Reference.snapshots_listable hpages hkept⟩

/-! ### The unassigned listing -/

/-- The conversations of the unassigned listing, in its order. -/
def unassignedRows (db : Database Digest) : List EmailConversation :=
  Keyset.sortedRows db.conversations (fun c => c.topicType.isNone && c.externalTopicId.isNone)
    unassignedKey

def listedUnassigned (c : EmailConversation) : UnassignedItem :=
  UnassignedItem.of c (isoText c.lastMessageAt)

def renderUnassigned (page : Keyset.Page EmailConversation (ℤ ×ₗ ℕ)ᵒᵈ) : UnassignedResponse where
  conversations := page.rows.map listedUnassigned
  hasMore := page.next.isSome
  before := page.next.map fun k =>
    cursorOf (ofLex (OrderDual.ofDual k)).1 (ofLex (OrderDual.ofDual k)).2

theorem unassignedItem_eq {c : EmailConversation} (h : c.Listable) :
    unassignedItem c = some (listedUnassigned c) := by
  unfold unassignedItem
  rw [toISOString_of_inDateRange h.lastMessageAt]
  rfl

theorem unassignedKey_injective (db : Database Digest) :
    ∀ c ∈ db.conversations, ∀ d ∈ db.conversations, unassignedKey c = unassignedKey d → c = d := by
  intro c hc d hd h
  exact Table.key_inj hc hd (congrArg (fun k => (ofLex (OrderDual.ofDual k)).2) h)

/-- A request with the cursor of a position is answered with the page behind it. -/
theorem getUnassigned_eq (hassignment : params.get "assignment" = some (js "unassigned"))
    (hrows : ∀ c ∈ db.conversations, c.Listable) {pos : Option (ℤ ×ₗ ℕ)ᵒᵈ}
    (hpos : ∀ k ∈ pos, ValidPosition (OrderDual.ofDual k)) :
    getUnassigned other db (params.withBefore
        (pos.map fun k => cursorOf (ofLex (OrderDual.ofDual k)).1 (ofLex (OrderDual.ofDual k)).2)) =
      .ok (renderUnassigned
        (Keyset.page unassignedKey (getPageLimit params) (unassignedRows db) pos)) := by
  have hread : readCursor other (params.withBefore
      (pos.map fun k => cursorOf (ofLex (OrderDual.ofDual k)).1 (ofLex (OrderDual.ofDual k)).2)) =
      some (pos.map fun k => ofLex (OrderDual.ofDual k)) := by
    have hvalid : ∀ p ∈ pos.map fun k => ofLex (OrderDual.ofDual k), InDateRange p.1 ∧
        IsUuid p.2 := by
      intro p hp
      obtain ⟨k, hk, rfl⟩ := Option.map_eq_some_iff.mp hp
      exact hpos k hk
    have hcursor :=
      @readCursor_withBefore params other (pos.map fun k => ofLex (OrderDual.ofDual k)) hvalid
    rwa [Option.map_map] at hcursor
  have hquery : Keyset.sortedRows db.conversations
      (fun c => c.topicType.isNone && c.externalTopicId.isNone &&
      (pos.map fun k => ofLex (OrderDual.ofDual k)).all fun b => decide (c.lastMessageAt < b.1) ||
        (c.lastMessageAt == b.1 && decide (c.id < b.2))) unassignedKey =
      Keyset.rest unassignedKey (unassignedRows db) pos := by
    refine Keyset.sortedRows_behind (unassignedKey_injective db) fun c => ?_
    rw [Bool.and_eq_true]
    refine and_congr_right fun _ => ?_
    cases pos with
    | none => simp
    | some k =>
        rw [Option.map_some, Option.all_some, Bool.or_eq_true, Bool.and_eq_true, beq_iff_eq,
          decide_eq_true_eq,
          decide_eq_true_eq, Keyset.behind_some, unassignedKey, OrderDual.lt_toDual,
            Prod.Lex.lt_iff]
        rfl
  have hleft : ∀ c ∈ Keyset.rest unassignedKey (unassignedRows db) pos, c.Listable := by
    intro c hc
    exact hrows c (Keyset.mem_sortedRows.mp (Keyset.mem_rest.mp hc).1).1
  have hitems :
      ((Keyset.rest unassignedKey (unassignedRows db) pos).take (getPageLimit params)).mapM
      unassignedItem =
      some (((Keyset.rest unassignedKey (unassignedRows db) pos).take (getPageLimit params)).map
        listedUnassigned) :=
    mapM_eq_some fun c hc => unassignedItem_eq (hleft c (List.mem_of_mem_take hc))
  have hcursor :=
    @nextCursor_firstPage _ _ unassignedKey (getPageLimit params) _ encodeConversationCursor
    (fun k => cursorOf (ofLex (OrderDual.ofDual k)).1 (ofLex (OrderDual.ofDual k)).2)
    fun c hc => encodeCursor_eq (hleft c hc).lastMessageAt c.id
  unfold getUnassigned
  rw [params.get_withBefore_of_ne _ (by decide), hassignment, if_neg (by simp), hread]
  dsimp only
  rw [hquery, getPageLimit_withBefore, take_take_succ, hitems]
  simp only [lt_length_take]
  rw [hcursor]
  dsimp only [orThrown, bind, Except.bind, pure, Except.pure]
  rw [renderUnassigned, Keyset.page, isSome_next (getPageLimit_bounds params).1]
  rfl

/-- The unassigned listing over databases whose conversations can be listed. -/
theorem renders_unassigned (hassignment : params.get "assignment" = some (js "unassigned"))
    {dbs : List (Database Digest)} (hrows : ∀ db ∈ dbs, ∀ c ∈ db.conversations, c.Listable) :
    Keyset.Renders unassignedKey (getPageLimit params) unassignedRows
      (fun db cursor => getUnassigned other db (params.withBefore cursor)) UnassignedResponse.before
      (fun k => cursorOf (ofLex (OrderDual.ofDual k)).1 (ofLex (OrderDual.ofDual k)).2)
      (fun _ => renderUnassigned) dbs where
  limit_pos := (getPageLimit_bounds params).1
  sorted := fun db _ => Keyset.pairwise_sortedRows (unassignedKey_injective db) _
  next_eq := fun _ _ => rfl
  serve_eq := by
    intro db hdb pos hpos
    refine getUnassigned_eq hassignment (hrows db hdb) fun k hk => ?_
    obtain ⟨db', hdb', c, hc, rfl⟩ := hpos k hk
    have hlistable := hrows db' hdb' c (Keyset.mem_sortedRows.mp hc).1
    exact ⟨hlistable.lastMessageAt, hlistable.id⟩

/-- Over a database that stays as it is, a client that follows the cursors of the unassigned listing
gets every conversation without a topic exactly once, the latest message first and ties by
identifier, on pages within the limit. -/
theorem unassigned_pages_complete (hassignment : params.get "assignment" = some (js "unassigned"))
    (hrows : ∀ c ∈ db.conversations, c.Listable) {n : ℕ} (hn : (unassignedRows db).length < n) :
    ∃ pages, Keyset.browse (fun db cursor => getUnassigned other db (params.withBefore cursor))
        UnassignedResponse.before (List.replicate n db) none = some pages ∧
      pages.flatMap UnassignedResponse.conversations = (unassignedRows db).map listedUnassigned ∧
      ∀ page ∈ pages, page.conversations.length ≤ getPageLimit params := by
  have hdbs : ∀ db' ∈ List.replicate n db, ∀ c ∈ db'.conversations, c.Listable := by
    intro db' hdb'
    rw [List.eq_of_mem_replicate hdb']
    exact hrows
  have hrenders := @renders_unassigned Digest params other hassignment (List.replicate n db) hdbs
  have hitems : ∀ p, (renderUnassigned p).conversations = p.rows.map listedUnassigned :=
    fun _ => rfl
  obtain ⟨pages, hpages, hall, hlimit⟩ := hrenders.exists_browse hitems hn
  refine ⟨pages, hpages, hall, fun page hpage => ?_⟩
  obtain ⟨q, rfl, hlength⟩ := hlimit page hpage
  rw [renderUnassigned, List.length_map]
  exact hlength

theorem unassigned_pages_complete_reference : ∃ pages, Keyset.browse
      (fun db cursor => getUnassigned (fun _ => none) db
        (SearchParams.withBefore [(js "assignment", js "unassigned"), (js "limit", js "2")] cursor))
      UnassignedResponse.before (List.replicate 4 Reference.listing) none = some pages ∧
    pages.flatMap UnassignedResponse.conversations =
      (unassignedRows Reference.listing).map listedUnassigned ∧
    ∀ page ∈ pages, page.conversations.length ≤
      getPageLimit [(js "assignment", js "unassigned"), (js "limit", js "2")] :=
  unassigned_pages_complete (by decide) Reference.listing_listable (by decide +kernel)

/-- While a client follows the cursors of the unassigned listing, a conversation that stays without
a topic and gets no message is on exactly one of the pages, once. -/
theorem unassigned_pages_stable (hassignment : params.get "assignment" = some (js "unassigned"))
    {dbs : List (Database Digest)} (hrows : ∀ db ∈ dbs, ∀ c ∈ db.conversations, c.Listable)
    {pages : List UnassignedResponse}
    (hpages : Keyset.browse (fun db cursor => getUnassigned other db (params.withBefore cursor))
      UnassignedResponse.before dbs none = some pages) {id : Uuid} {lastMessageAt : Time}
    (hkept : ∀ db ∈ dbs, ∃ c ∈ db.conversations, c.id = id ∧ c.lastMessageAt = lastMessageAt ∧
      c.topicType = none ∧ c.externalTopicId = none) :
    ((pages.flatMap UnassignedResponse.conversations).filter fun item =>
      item.id == uuidText id).length = 1 := by
  have hk : ∀ db ∈ dbs, ∃ c ∈ unassignedRows db,
      unassignedKey c = OrderDual.toDual (toLex (lastMessageAt, id)) := by
    intro db hdb
    obtain ⟨c, hc, hid, htime, htype, hexternal⟩ := hkept db hdb
    refine ⟨c, Keyset.mem_sortedRows.mpr ⟨hc, by rw [htype, hexternal]; rfl⟩, ?_⟩
    rw [unassignedKey, hid, htime]
  have hitems : ∀ db ∈ dbs, ∀ p, (renderUnassigned p).conversations = p.rows.map listedUnassigned :=
    fun _ _ _ => rfl
  refine (renders_unassigned hassignment hrows).browse_once hitems hpages hk fun db hdb => ?_
  have hmem : ∀ c ∈ unassignedRows db, c ∈ db.conversations := fun c hc =>
    (Keyset.mem_sortedRows.mp hc).1
  refine listed_iff (fun c hc => (hrows db hdb c (hmem c hc)).id) (fun c _ h => ?_)
    (fun c hc d hd h => Table.key_inj (hmem c hc) (hmem d hd) h) (hk db hdb)
  exact congrArg (fun k => (ofLex (OrderDual.ofDual k)).2) h

theorem unassigned_pages_stable_reference : ∃ pages, Keyset.browse
      (fun db cursor => getUnassigned (fun _ => none) db
        (SearchParams.withBefore [(js "assignment", js "unassigned"), (js "limit", js "1")] cursor))
      UnassignedResponse.before Reference.snapshots none = some pages ∧
    ((pages.flatMap UnassignedResponse.conversations).filter fun item =>
      item.id == uuidText (Reference.listed 1 1000).id).length = 1 := by
  obtain ⟨pages, hpages⟩ : ∃ pages, Keyset.browse
      (fun db cursor => getUnassigned (fun _ => none) db
        (SearchParams.withBefore [(js "assignment", js "unassigned"), (js "limit", js "1")] cursor))
      UnassignedResponse.before Reference.snapshots none = some pages :=
        Option.isSome_iff_exists.mp (by decide +kernel)
  have hkept : ∀ db ∈ Reference.snapshots, ∃ c ∈ db.conversations,
      c.id = (Reference.listed 1 1000).id ∧
      c.lastMessageAt = 1000 ∧ c.topicType = none ∧ c.externalTopicId = none := by
    intro db hdb
    obtain ⟨c, hc, rfl⟩ := Reference.listed_kept db hdb
    exact ⟨_, hc, rfl, rfl, rfl, rfl⟩
  exact ⟨pages, hpages, unassigned_pages_stable (by decide) Reference.snapshots_listable
    hpages hkept⟩

/-! ### The messages of a conversation -/

section Messages

variable {config : Config} {lower : JsString → JsString} {updatedAt : Uuid → Time}
    {conversation : EmailConversation}

/-- A message that can be listed: its identifier is a UUID and its dates can be written. -/
structure EmailMessage.Listable (m : EmailMessage Digest) : Prop where
  id : IsUuid m.id
  emailCreatedAt : InDateRange m.emailCreatedAt
  deliveredAt : ∀ t ∈ m.deliveredAt, InDateRange t

/-- A conversation that can be read: it has a Reply-To address and its dates can be written. -/
structure EmailConversation.Readable (config : Config) (lower : JsString → JsString)
    (updatedAt : Uuid → Time) (c : EmailConversation) : Prop where
  replyToAddress :
    (buildConversationReplyTo lower ((c.replyToBaseAddress.or config.resendReplyTo).getD [])
    c.routingToken).isSome
  stateChangedAt : InDateRange c.stateChangedAt
  lastMessageAt : InDateRange c.lastMessageAt
  createdAt : InDateRange c.createdAt
  updatedAt : InDateRange (updatedAt c.id)

/-- The messages of a conversation, the latest first. -/
def messageRows (db : Database Digest) (conversationId : Uuid) : List (EmailMessage Digest) :=
  Keyset.sortedRows db.messages (fun m => m.conversationId == some conversationId) messageKey

/-- The attachments that are listed with a message. -/
def messageAttachments (config : Config) (db : Database Digest) (messageId : Uuid) :
    List EmailAttachment :=
  if config.attachmentsEnabled then
    Keyset.sortedRows db.attachments (fun a => a.messageId == some messageId) EmailAttachment.id
  else []

/-- The item of a message whose dates can be written. -/
def listedMessage (config : Config) (db : Database Digest) (m : EmailMessage Digest) :
    SerializedMessage :=
  SerializedMessage.of config m (messageAttachments config db m.id)
    ((if m.direction = .outbound then m.deliveredAt else none).map isoText)
      (isoText m.emailCreatedAt)

def messageCursor (k : (ℤ ×ₗ ℕ)ᵒᵈ) : JsString := uuidText (ofLex (OrderDual.ofDual k)).2

def renderConversation (config : Config) (lower : JsString → JsString) (updatedAt : Uuid → Time)
    (c : EmailConversation) (db : Database Digest)
    (page : Keyset.Page (EmailMessage Digest) (ℤ ×ₗ ℕ)ᵒᵈ) : ConversationResponse where
  id := uuidText c.id
  topic := serializeTopic c
  title := c.title
  subject := c.subject
  participant := ⟨c.participantAddress, c.participantName⟩
  replyToAddress :=
    (buildConversationReplyTo lower ((c.replyToBaseAddress.or config.resendReplyTo).getD [])
    c.routingToken).getD []
  state := serializeConversationState c.state
  stateChangedAt := isoText c.stateChangedAt
  awaitingReply := c.state == .awaitingUs
  lastMessageAt := isoText c.lastMessageAt
  createdAt := isoText c.createdAt
  updatedAt := isoText (updatedAt c.id)
  messages := page.rows.reverse.map (listedMessage config db)
  hasMoreBefore := page.next.isSome
  before := page.next.map messageCursor

theorem messageKey_injective (db : Database Digest) :
    ∀ m ∈ db.messages, ∀ m' ∈ db.messages, messageKey m = messageKey m' → m = m' := by
  intro m hm m' hm' h
  exact Table.key_inj hm hm' (congrArg (fun k => (ofLex (OrderDual.ofDual k)).2) h)

/-- The attachments of a message are the same whichever messages are loaded with it. -/
theorem loadAttachmentsByMessage_eq {messageIds : List Uuid} {messageId : Uuid}
    (h : messageId ∈ messageIds) :
    loadAttachmentsByMessage config db messageIds messageId =
      messageAttachments config db messageId := by
  unfold loadAttachmentsByMessage messageAttachments
  split
  · refine (Keyset.sortedRows_filter (fun a ha b hb hab => Table.key_inj ha hb hab)
      fun a => ?_).symm
    rw [beq_iff_eq]
    constructor
    · intro heq
      rw [heq]
      exact ⟨by simpa using h, by simp⟩
    · intro hand
      exact hand.2
  · rfl

theorem serializeMessage_eq {m : EmailMessage Digest} (h : m.Listable) {messageIds : List Uuid}
    (hm : m.id ∈ messageIds) :
    serializeMessage config m (loadAttachmentsByMessage config db messageIds m.id) =
      some (listedMessage config db m) := by
  have hdelivered : toISOString? (if m.direction = .outbound then m.deliveredAt else none) =
      some ((if m.direction = .outbound then m.deliveredAt else none).map isoText) := by
    split
    · cases ht : m.deliveredAt with
      | none => rfl
      | some t =>
          rw [toISOString?, toISOString_of_inDateRange (h.deliveredAt t ht)]
          rfl
    · rfl
  unfold serializeMessage
  rw [hdelivered, toISOString_of_inDateRange h.emailCreatedAt, loadAttachmentsByMessage_eq hm]
  rfl

/-- A conversation that can be read is written with the page of its messages. -/
theorem serializeConversation_eq {limit : ℕ} (hlimit : 0 < limit)
    (hread : conversation.Readable config lower updatedAt) {left : List (EmailMessage Digest)}
    (hleft : ∀ m ∈ left, m.Listable) :
    serializeConversation config lower conversation (updatedAt conversation.id)
      (left.take limit).reverse (decide (limit < left.length))
        (loadAttachmentsByMessage config db ((left.take limit).reverse.map EmailMessage.id)) =
      some (renderConversation config lower updatedAt conversation db
        (Keyset.firstPage messageKey limit left)) := by
  obtain ⟨replyTo, hreply⟩ := Option.isSome_iff_exists.mp hread.replyToAddress
  have hitems : ((left.take limit).reverse.mapM fun m => serializeMessage config m
      (loadAttachmentsByMessage config db ((left.take limit).reverse.map EmailMessage.id) m.id)) =
      some ((left.take limit).reverse.map (listedMessage config db)) := by
    refine mapM_eq_some fun m hm => serializeMessage_eq ?_ (List.mem_map_of_mem hm)
    exact hleft m (List.mem_of_mem_take (List.mem_reverse.mp hm))
  have hbefore : (if limit < left.length then (left.take limit).reverse.head?.map fun m =>
      uuidText m.id else none) =
      (Keyset.firstPage messageKey limit left).next.map messageCursor := by
    unfold Keyset.firstPage
    rw [List.head?_reverse]
    split
    · rw [Option.map_map]
      rfl
    · rfl
  unfold serializeConversation renderConversation
  rw [hreply, toISOString_of_inDateRange hread.stateChangedAt,
    toISOString_of_inDateRange hread.lastMessageAt,
    toISOString_of_inDateRange hread.createdAt, toISOString_of_inDateRange hread.updatedAt]
  simp only [Option.bind_eq_bind, Option.bind_some, hitems, decide_eq_true_eq, hbefore,
    isSome_next hlimit, Option.getD_some]
  rfl

/-- The message that a cursor names. -/
theorem find?_message {m : EmailMessage Digest} (hm : m ∈ messageRows db conversation.id)
    (hid : IsUuid m.id) :
    db.messages.rows.find?
      (fun m' => m'.id == uuidOfText (uuidText m.id) && m'.conversationId == some conversation.id) =
      some m := by
  obtain ⟨hmem, hconversation⟩ := Keyset.mem_sortedRows.mp hm
  rw [uuidOfText_uuidText hid.bounded]
  cases hfind : db.messages.rows.find? fun m' =>
    m'.id == m.id && m'.conversationId == some conversation.id with
  | none =>
      have hnot := List.find?_eq_none.mp hfind m hmem
      simp only [BEq.rfl, Bool.true_and] at hnot
      exact absurd hconversation hnot
  | some m' =>
      have hfound := List.find?_some hfind
      rw [Bool.and_eq_true, beq_iff_eq] at hfound
      rw [Table.key_inj (List.mem_of_find?_eq_some hfind) hmem hfound.1]

/-- The messages behind a message, or all of them. -/
theorem messagesBefore_eq (before : Option (EmailMessage Digest)) (count : ℕ) :
    messagesBefore db conversation.id before count =
      (Keyset.rest messageKey (messageRows db conversation.id) (before.map messageKey)).take
        count := by
  rw [messagesBefore]
  congr 1
  refine Keyset.sortedRows_behind (messageKey_injective db) fun m => ?_
  rw [Bool.and_eq_true]
  refine and_congr_right fun _ => ?_
  cases before with
  | none => simp
  | some b =>
      rw [Option.map_some, Option.all_some, Bool.or_eq_true, Bool.and_eq_true, beq_iff_eq,
        decide_eq_true_eq,
        decide_eq_true_eq, Keyset.behind_some, messageKey, messageKey, OrderDual.toDual_lt_toDual,
          Prod.Lex.lt_iff]
      rfl

/-- A request with the identifier of a message of the conversation is answered with the page
behind it. -/
theorem getConversationResponse_eq {target : EmailConversation → Bool}
    (htarget : db.conversations.rows.find? target = some conversation)
    (hread : conversation.Readable config lower updatedAt)
    (hrows : ∀ m ∈ messageRows db conversation.id, m.Listable) {pos : Option (ℤ ×ₗ ℕ)ᵒᵈ}
    (hpos : ∀ k ∈ pos, ∃ m ∈ messageRows db conversation.id, messageKey m = k) :
    getConversationResponse config lower updatedAt db
      (params.withBefore (pos.map messageCursor)) target =
      .ok (renderConversation config lower updatedAt conversation db
        (Keyset.page messageKey (getPageLimit params) (messageRows db conversation.id) pos)) := by
  have hpage : ∀ before : Option (EmailMessage Digest),
      orThrown (serializeConversation config lower conversation (updatedAt conversation.id)
        ((messagesBefore db conversation.id before (getPageLimit params + 1)).take
          (getPageLimit params)).reverse
        (decide (getPageLimit params <
          (messagesBefore db conversation.id before (getPageLimit params + 1)).length))
        (loadAttachmentsByMessage config db (((messagesBefore db conversation.id before
          (getPageLimit params + 1)).take (getPageLimit params)).reverse.map EmailMessage.id))) =
      .ok (renderConversation config lower updatedAt conversation db
        (Keyset.page messageKey (getPageLimit params) (messageRows db conversation.id)
          (before.map messageKey))) := by
    intro before
    rw [messagesBefore_eq, take_take_succ]
    simp only [lt_length_take]
    rw [serializeConversation_eq (getPageLimit_bounds params).1 hread fun m hm =>
      hrows m (Keyset.mem_rest.mp hm).1]
    rfl
  unfold getConversationResponse
  rw [htarget]
  dsimp only
  rw [SearchParams.get_withBefore, getPageLimit_withBefore]
  cases pos with
  | none => exact hpage none
  | some k =>
      obtain ⟨m, hm, rfl⟩ := hpos k rfl
      have hid := (hrows m hm).id
      have htext : (some (messageCursor (messageKey m))).bind orNull = some (uuidText m.id) := by
        show orNull (uuidText m.id) = some (uuidText m.id)
        rw [orNull, if_neg]
        intro hnil
        have huuid := hid.uuid
        rw [List.isEmpty_iff.mp hnil] at huuid
        cases huuid
      have hvalid : ((some (uuidText m.id)).any fun id => !isUuid id) = false := by
        rw [Option.any_some, hid.uuid]
        rfl
      rw [Option.map_some, htext, hvalid, Option.bind_some, find?_message hm hid]
      exact hpage (some m)

/-- The messages of a page, the latest first. -/
def ConversationResponse.latestFirst (page : ConversationResponse) : List SerializedMessage :=
  page.messages.reverse

/-- Over a database that stays as it is, a client that follows the cursors of a conversation back
gets every message of it exactly once: read from the last page to the first, they stand in the order
of their times, ties by identifier. -/
theorem message_pages_complete {target : EmailConversation → Bool}
    (htarget : db.conversations.rows.find? target = some conversation)
    (hread : conversation.Readable config lower updatedAt)
    (hrows : ∀ m ∈ messageRows db conversation.id, m.Listable) {n : ℕ}
    (hn : (messageRows db conversation.id).length < n) :
    ∃ pages, Keyset.browse
        (fun db cursor => getConversationResponse config lower updatedAt db
          (params.withBefore cursor) target)
        ConversationResponse.before (List.replicate n db) none = some pages ∧
      pages.reverse.flatMap ConversationResponse.messages =
        (messageRows db conversation.id).reverse.map (listedMessage config db) ∧
      ∀ page ∈ pages, page.messages.length ≤ getPageLimit params := by
  have hrenders : Keyset.Renders messageKey (getPageLimit params)
      (fun db => messageRows db conversation.id)
      (fun db cursor => getConversationResponse config lower updatedAt db
        (params.withBefore cursor) target)
      ConversationResponse.before messageCursor
        (renderConversation config lower updatedAt conversation)
      (List.replicate n db) := by
    refine ⟨(getPageLimit_bounds params).1, ?_, fun _ _ => rfl, ?_⟩
    · intro db' _
      exact Keyset.pairwise_sortedRows (messageKey_injective db') _
    · intro db' hdb' pos hpos
      have heq := List.eq_of_mem_replicate hdb'
      subst heq
      refine getConversationResponse_eq htarget hread hrows fun k hk => ?_
      obtain ⟨db'', hdb'', m, hm, hkey⟩ := hpos k hk
      rw [List.eq_of_mem_replicate hdb''] at hm
      exact ⟨m, hm, hkey⟩
  have hitems : ∀ p, (renderConversation config lower updatedAt conversation db p).latestFirst =
      p.rows.map (listedMessage config db) := by
    intro p
    rw [ConversationResponse.latestFirst, renderConversation, List.map_reverse,
      List.reverse_reverse]
  obtain ⟨pages, hpages, hall, hlimit⟩ := hrenders.exists_browse hitems hn
  refine ⟨pages, hpages, ?_, fun page hpage => ?_⟩
  · rw [List.map_reverse, ← hall, List.reverse_flatMap]
    exact List.flatMap_congr fun page _ => (List.reverse_reverse _).symm
  · obtain ⟨q, rfl, hlength⟩ := hlimit page hpage
    rw [renderConversation, List.length_map, List.length_reverse]
    exact hlength

end Messages

/-- A database with one conversation of two messages of the same time. -/
def Reference.dialogue : Database SendRequest :=
  let message := fun id : Uuid =>
    ({ id := 0x01910000000070008000000000000010 + id
       conversationId := some (Reference.listed 1 1000).id
       direction := .inbound
       state := .received
       fromAddress := js "p@example.com"
       toAddress := js "support@example.com"
       subject := js "s"
       emailCreatedAt := 1000
       createdAt := 1000 } : EmailMessage SendRequest)
  { Reference.listing with messages := ⟨[message 1, message 2], by decide⟩ }

theorem Reference.dialogue_listable :
    ∀ m ∈ messageRows Reference.dialogue (Reference.listed 1 1000).id, m.Listable := by
  have hall : ∀ m ∈ Reference.dialogue.messages, m.id < 16 ^ 32 ∧ isUuid (uuidText m.id) = true ∧
      (-maxTime ≤ m.emailCreatedAt ∧ m.emailCreatedAt ≤ maxTime) ∧ m.deliveredAt = none := by
        decide +kernel
  intro m hm
  obtain ⟨hbounded, huuid, htime, hdelivered⟩ := hall m (Keyset.mem_sortedRows.mp hm).1
  refine ⟨⟨hbounded, huuid⟩, htime, fun t ht => ?_⟩
  rw [hdelivered] at ht
  cases ht

theorem message_pages_complete_reference : ∃ pages, Keyset.browse
      (fun db cursor => getConversationResponse Config.reference id (fun _ => 1000) db
        (SearchParams.withBefore [(js "limit", js "1")] cursor) fun c =>
          c.id == (Reference.listed 1 1000).id)
      ConversationResponse.before (List.replicate 3 Reference.dialogue) none = some pages ∧
    pages.reverse.flatMap ConversationResponse.messages =
      (messageRows Reference.dialogue (Reference.listed 1 1000).id).reverse.map
        (listedMessage Config.reference Reference.dialogue) ∧
    ∀ page ∈ pages, page.messages.length ≤ getPageLimit [(js "limit", js "1")] :=
  message_pages_complete (by decide +kernel)
    ⟨by decide +kernel, ⟨by decide, by decide⟩, ⟨by decide, by decide⟩, ⟨by decide, by decide⟩,
      ⟨by decide, by decide⟩⟩
    Reference.dialogue_listable (by decide +kernel)

end ResendConversation
