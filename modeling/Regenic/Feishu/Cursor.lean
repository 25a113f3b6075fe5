import Regenic.Feishu.Contracts
import Regenic.Lib.JsonText

/-!
The cursor of a Feishu chat: the walk it stands for, its text, the request it leads to and what
a page makes of it.
-/

namespace Regenic.Feishu

open Lib
open Customer (DateParse nonBlank)

inductive CursorSort where
  | asc
  | desc
  deriving DecidableEq, Repr

structure FeishuCursorState where
  pageToken : Option String := none
  startTime : Option String := none
  sort : Option CursorSort := none
  headTime : Option String := none
  recentSeeded : Bool := false
  historyToken : Option String := none
  historyBefore : Option String := none
  mediaJobs : List FeishuMediaJob := []
  deriving DecidableEq

/-! ## Text -/

def stringValue (value : Option JsonValue) : Option String :=
  (value.bind JsonValue.string?).filter nonBlank

section Decode

variable (number : JsNumber)

def finiteNumber (value : Option JsonValue) : Option ℚ :=
  match value with
  | some (.number text) => number.read text
  | _ => none

def decodeKind (value : Option JsonValue) : Option FeishuMediaKind :=
  match value.bind JsonValue.string? with
  | some "image" => some .image
  | some "file" => some .file
  | _ => none

def decodeMediaRef (item : JsonValue) : Option FeishuMediaRef := do
  let key ← stringValue (item.field? "key")
  let kind ← decodeKind (item.field? "kind")
  pure {
    kind
    key
    filename := stringValue (item.field? "filename")
    mediaType := stringValue (item.field? "media_type") }

def decodeMediaRefs (value : Option JsonValue) : List FeishuMediaRef :=
  match value with
  | some (.array items) => items.filterMap decodeMediaRef
  | _ => []

def decodeSenderKind (value : Option JsonValue) : Option FeishuSenderKind :=
  match value.bind JsonValue.string? with
  | some "user" => some .user
  | some "assistant" => some .assistant
  | _ => none

def decodeDirection (value : Option JsonValue) : Option MessageDirection :=
  match value.bind JsonValue.string? with
  | some "inbound" => some .inbound
  | some "outbound" => some .outbound
  | _ => none

def decodeMediaJob (item : JsonValue) : Option FeishuMediaJob := do
  let messageId ← stringValue (item.field? "message_id")
  let key ← stringValue (item.field? "key")
  let kind ← decodeKind (item.field? "kind")
  let actorId ← stringValue (item.field? "actor_id")
  let occurredAt ← stringValue (item.field? "occurred_at")
  let senderKind ← decodeSenderKind (item.field? "sender_kind")
  let direction ← decodeDirection (item.field? "direction")
  let filename := stringValue (item.field? "filename")
  let refs := decodeMediaRefs (item.field? "refs")
  pure {
    messageId
    occurredAt
    actorId
    actorLabel := stringValue (item.field? "actor_label")
    senderKind
    direction
    text := (item.field? "text").bind JsonValue.string?
    type := stringValue (item.field? "type")
    threadId := stringValue (item.field? "thread_id")
    parentExternalId := stringValue (item.field? "parent_external_id")
    refs := if refs = [] then [{ kind, key, filename }] else refs
    key
    kind
    filename
    mediaType := stringValue (item.field? "media_type")
    attempts := ((finiteNumber number (item.field? "attempts")).filter (·.den = 1)).elim 0 (·.num)
    retryAfter := finiteNumber number (item.field? "retry_after") }

def decodeMediaJobs (value : Option JsonValue) : List FeishuMediaJob :=
  match value with
  | some (.array items) => items.filterMap (decodeMediaJob number)
  | _ => []

def decodeSort (value : Option JsonValue) : Option CursorSort :=
  match value.bind JsonValue.string? with
  | some "desc" => some .desc
  | some "asc" => some .asc
  | _ => none

def isTrue : Option JsonValue → Bool
  | some (.bool true) => true
  | _ => false

/-- A cursor of a descending walk reads as a history walk beside a live one. -/
def decodeFeishuObject (parsed : JsonValue) : FeishuCursorState :=
  let sort := decodeSort (parsed.field? "sort")
  let pageToken := stringValue (parsed.field? "page_token")
  let recentSeeded := isTrue (parsed.field? "recent_seeded")
  let headTime := stringValue (parsed.field? "head_time")
  { pageToken := if sort = some .desc then none else pageToken
    startTime := stringValue (parsed.field? "start_time") <|>
      (if sort = some .desc ∧ recentSeeded then headTime else none)
    sort := if sort = some .desc then none else sort
    headTime
    recentSeeded
    historyToken := stringValue (parsed.field? "history_token") <|>
      (if sort = some .desc then pageToken else none)
    historyBefore := stringValue (parsed.field? "history_before")
    mediaJobs := decodeMediaJobs number (parsed.field? "media_jobs") }

/-- A text that is not JSON is a page token. -/
def decodeFeishuCursor (cursor : Option String) : FeishuCursorState :=
  match present cursor with
  | none => {}
  | some text =>
    match Json.parse text with
    | none => { pageToken := some text }
    | some (.object fields) => decodeFeishuObject number (.object fields)
    | some _ => {}

end Decode

def optionalField (name : String) (value : Option String) : List (String × JsonValue) :=
  match present value with
  | none => []
  | some text => [(name, .string text)]

/-- The head time is written where it differs from the start time. -/
def FeishuCursorState.writtenHead (state : FeishuCursorState) : Option String :=
  if state.sort = some .desc ∨ state.headTime ≠ state.startTime then state.headTime else none

def FeishuCursorState.fields (state : FeishuCursorState) : List (String × JsonValue) :=
  optionalField "page_token" state.pageToken ++
    optionalField "start_time" state.startTime ++
    (if state.sort = some .desc then [("sort", .string "desc")] else []) ++
    optionalField "head_time" state.writtenHead ++
    (if state.recentSeeded then [("recent_seeded", .bool true)] else []) ++
    optionalField "history_token" state.historyToken ++
    optionalField "history_before" state.historyBefore

def FeishuCursorState.isBlank (state : FeishuCursorState) : Bool :=
  (present state.pageToken).isNone && (present state.startTime).isNone &&
    state.sort ≠ some .desc && !state.recentSeeded && (present state.headTime).isNone &&
    (present state.historyToken).isNone && (present state.historyBefore).isNone

def encodeFeishuCursor (state : FeishuCursorState) : Option String :=
  if state.isBlank then none else some (Json.stringify (.object state.fields))

/-! ### A cursor reads back -/

theorem field?_append (name : String) (first second : List (String × JsonValue)) :
    (JsonValue.object (first ++ second)).field? name =
      ((JsonValue.object second).field? name).or ((JsonValue.object first).field? name) := by
  simp only [JsonValue.field?, List.reverse_append, List.find?_append, Option.map_or]

theorem field?_nil (name : String) : (JsonValue.object []).field? name = none := rfl

theorem field?_single (name name' : String) (value : JsonValue) :
    (JsonValue.object [(name', value)]).field? name = if name' = name then some value else none := by
  by_cases h : name' = name <;> simp [JsonValue.field?, h]

theorem field?_optionalField (name name' : String) (value : Option String) :
    (JsonValue.object (optionalField name' value)).field? name =
      if name' = name then (present value).map .string else none := by
  unfold optionalField
  cases present value with
  | none => simp [field?_nil]
  | some text => simp [field?_single]

theorem field?_flag (name name' : String) (flag : Bool) (value : JsonValue) :
    (JsonValue.object (if flag then [(name', value)] else [])).field? name =
      if name' = name ∧ flag then some value else none := by
  cases flag <;> simp [field?_nil, field?_single]

theorem printable_append {first second : List (String × JsonValue)}
    (hfirst : Json.PrintableMembers first) (hsecond : Json.PrintableMembers second) :
    Json.PrintableMembers (first ++ second) := by
  induction first with
  | nil => exact hsecond
  | cons field rest ih => exact ⟨hfirst.1, ih hfirst.2⟩

theorem printable_optionalField (name : String) (value : Option String) :
    Json.PrintableMembers (optionalField name value) := by
  unfold optionalField
  split
  · trivial
  · exact ⟨trivial, trivial⟩

theorem printable_fields (state : FeishuCursorState) :
    Json.PrintableMembers state.fields := by
  have hsort : Json.PrintableMembers
      (if state.sort = some .desc then [("sort", JsonValue.string "desc")] else []) := by
    split
    · exact ⟨trivial, trivial⟩
    · trivial
  have hseeded : Json.PrintableMembers
      (if state.recentSeeded then [("recent_seeded", JsonValue.bool true)] else []) := by
    split
    · exact ⟨trivial, trivial⟩
    · trivial
  unfold FeishuCursorState.fields
  repeat' apply printable_append
  all_goals first | apply printable_optionalField | assumption

/-- The state that a cursor of this state reads as. -/
def FeishuCursorState.reread (state : FeishuCursorState) : FeishuCursorState where
  pageToken := state.pageToken.filter nonBlank
  startTime := state.startTime.filter nonBlank
  headTime := state.writtenHead.filter nonBlank
  recentSeeded := state.recentSeeded
  historyToken := state.historyToken.filter nonBlank
  historyBefore := state.historyBefore.filter nonBlank

theorem field?_sort (name : String) (sort : Option CursorSort) :
    (JsonValue.object (if sort = some .desc then [("sort", .string "desc")] else [])).field?
        name =
      if "sort" = name ∧ sort = some .desc then some (.string "desc") else none := by
  split <;> simp_all [field?_nil, field?_single]

theorem field?_fields (state : FeishuCursorState) :
    (JsonValue.object state.fields).field? "page_token" =
        (present state.pageToken).map .string ∧
      (JsonValue.object state.fields).field? "start_time" =
        (present state.startTime).map .string ∧
      (JsonValue.object state.fields).field? "sort" =
        (if state.sort = some .desc then some (.string "desc") else none) ∧
      (JsonValue.object state.fields).field? "head_time" =
        (present state.writtenHead).map .string ∧
      (JsonValue.object state.fields).field? "recent_seeded" =
        (if state.recentSeeded then some (.bool true) else none) ∧
      (JsonValue.object state.fields).field? "history_token" =
        (present state.historyToken).map .string ∧
      (JsonValue.object state.fields).field? "history_before" =
        (present state.historyBefore).map .string ∧
      (JsonValue.object state.fields).field? "media_jobs" = none := by
  simp [FeishuCursorState.fields, field?_append, field?_optionalField, field?_flag, field?_sort]

/-- What is not blank is present. -/
theorem filter_present (value : Option String) :
    (present value).filter nonBlank = value.filter nonBlank := by
  cases value with
  | none => rfl
  | some text =>
    by_cases h : text = ""
    · rw [h]
      decide
    · rw [present_some.mpr ⟨rfl, h⟩]

theorem stringValue_map (value : Option String) :
    stringValue ((present value).map .string) = value.filter nonBlank := by
  rw [← filter_present]
  cases present value <;> rfl

theorem decode_parsed {number : JsNumber} (state : FeishuCursorState)
    (hblank : state.isBlank = false) :
    decodeFeishuCursor number (encodeFeishuCursor state) =
      decodeFeishuObject number (.object state.fields) := by
  have hne : Json.stringify (.object state.fields) ≠ "" := by
    intro hempty
    have hrendered := congrArg String.toList hempty
    rw [Json.stringify, String.toList_ofList] at hrendered
    have hlength := Json.length_render (.object state.fields) (printable_fields state)
    rw [hrendered] at hlength
    exact absurd hlength (by decide)
  have hparse := Json.parse_stringify (.object state.fields) (printable_fields state)
  unfold decodeFeishuCursor encodeFeishuCursor
  rw [hblank, if_neg Bool.false_ne_true, present_some.mpr ⟨rfl, hne⟩]
  simp only [hparse]

/-- A cursor reads back as the state it was made of, without what it does not carry. -/
theorem decode_encode {number : JsNumber} (state : FeishuCursorState)
    (hsort : state.sort ≠ some .desc) :
    decodeFeishuCursor number (encodeFeishuCursor state) = state.reread := by
  cases hblank : state.isBlank with
  | true =>
    simp only [FeishuCursorState.isBlank, Bool.and_eq_true, Option.isNone_iff_eq_none,
      Bool.not_eq_true', decide_eq_true_eq] at hblank
    obtain ⟨⟨⟨⟨⟨⟨hpage, hstart⟩, -⟩, hseeded⟩, hhead⟩, hhistory⟩, hbefore⟩ := hblank
    have hwritten : state.writtenHead.filter nonBlank = none := by
      unfold FeishuCursorState.writtenHead
      split
      · rw [← filter_present, hhead]
        rfl
      · rfl
    have hencoded : encodeFeishuCursor state = none := by
      simp [encodeFeishuCursor, FeishuCursorState.isBlank, *]
    rw [hencoded, FeishuCursorState.reread, hwritten, ← filter_present state.pageToken,
      ← filter_present state.startTime, ← filter_present state.historyToken,
      ← filter_present state.historyBefore, hpage, hstart, hseeded, hhistory, hbefore]
    rfl
  | false =>
    obtain ⟨hpage, hstart, hdesc, hhead, hseeded, hhistory, hbefore, hjobs⟩ :=
      field?_fields state
    rw [decode_parsed state hblank, decodeFeishuObject, hpage, hstart, hdesc, hhead, hseeded,
      hhistory, hbefore, hjobs, if_neg hsort]
    simp only [stringValue_map, FeishuCursorState.reread]
    cases hflag : state.recentSeeded <;> simp [decodeSort, decodeMediaJobs, isTrue]

/-- No cursor that is written carries jobs. -/
theorem mediaJobs_decode_encode {number : JsNumber} (state : FeishuCursorState) :
    (decodeFeishuCursor number (encodeFeishuCursor state)).mediaJobs = [] := by
  cases hblank : state.isBlank with
  | true =>
    have hencoded : encodeFeishuCursor state = none := by
      rw [encodeFeishuCursor, if_pos hblank]
    rw [hencoded]
    rfl
  | false =>
    rw [decode_parsed state hblank, decodeFeishuObject]
    simp only [(field?_fields state).2.2.2.2.2.2.2, decodeMediaJobs]

/-! ## Walks -/

def needsRecentSeed (state : FeishuCursorState) : Bool :=
  !state.recentSeeded && state.sort ≠ some .desc

def deferredHistoryToken (state : FeishuCursorState) : Option String :=
  match present state.historyToken with
  | some token => some token
  | none => if state.sort = some .desc then state.pageToken else none

structure FeishuHistoryAnchor where
  before : String
  anchorMs : ℚ
  endTime : String
  externalId : Option String := none
  deriving DecidableEq

structure SyncPollHint where
  liveSeeded : Bool
  historyPending : Bool
  deriving DecidableEq, Repr

def feishuPollHint (state : FeishuCursorState) : SyncPollHint where
  liveSeeded := state.recentSeeded
  historyPending := (present (deferredHistoryToken state)).isSome

section Walks

variable (number : JsNumber)

def feishuStoredHistoryBound (state : FeishuCursorState) : Option FeishuHistoryAnchor :=
  if (present (deferredHistoryToken state)).isSome then none
  else
    let before := (state.historyBefore.map jsTrim).getD ""
    match number.read before with
    | none => none
    | some anchorMs =>
      if before = "" ∨ anchorMs ≤ 0 then none
      else some { before, anchorMs, endTime := number.print (⌊anchorMs / 1000⌋ : ℤ) }

def feishuHistoryAnchor (dateParse : DateParse) (options : ConnectorPollOptions) :
    Option FeishuHistoryAnchor :=
  if !options.older then none
  else
    match present (options.before.map jsTrim) with
    | none => none
    | some before =>
      match dateParse before with
      | none => none
      | some anchorMs =>
        if anchorMs ≤ 0 then none
        else some {
          before
          anchorMs
          endTime := number.print (⌊(anchorMs : ℚ) / 1000⌋ : ℤ)
          externalId := present (options.beforeExternalId.map jsTrim) }

def feishuItemBeforeAnchor (item : FeishuHistoryItem) (anchorMs : ℚ)
    (boundaryExternalId : Option String) (chatId : String) : Bool :=
  if item.messageId ≠ "" ∧ present boundaryExternalId = some (chatId ++ ":" ++ item.messageId) then
    false
  else (feishuCreateTimeMs number item.createTime).any fun ms => ms < anchorMs

/-- The cursor without its history walk. -/
def withoutHistory (state : FeishuCursorState) : FeishuCursorState where
  pageToken := if state.sort = some .desc then none else present state.pageToken
  startTime := present state.startTime
  headTime := if state.headTime = state.startTime then none else present state.headTime
  recentSeeded := state.recentSeeded
  sort := if state.sort = some .asc then some .asc else none

/-- An anchored scroll closes the history walk where the chat has no older message. -/
def feishuCursorAfterAnchor (state : FeishuCursorState) (hasMore : Bool) : FeishuCursorState :=
  if hasMore then state else withoutHistory state

def nextHistoryBoundState (state : FeishuCursorState) (page : FeishuHistoryPage) :
    FeishuCursorState :=
  if !page.hasMore then feishuCursorAfterAnchor state false
  else
    let fallback := (state.historyBefore.bind number.read).bind fun bound =>
      if bound > 1000 then some (bound - 1000) else none
    let nextBefore := oldestCreateMs number page.items <|> fallback
    { withoutHistory state with
      historyBefore := (nextBefore.filter (0 < ·)).map number.print }

def retainHistoryBefore (current next : FeishuCursorState) : FeishuCursorState :=
  match present current.historyBefore with
  | none => next
  | some before =>
    if (present next.historyBefore).isSome then next
    else if (present (deferredHistoryToken next)).isSome ∨
        (present (deferredHistoryToken current)).isNone then
      { next with historyBefore := some before }
    else next

/-- The start of the next ascending walk. -/
def liveStart (state : FeishuCursorState) : Option String :=
  laterTime number state.headTime state.startTime

def planFeishuHistoryRequest (chatId : String) (pageSize : Nat) (state : FeishuCursorState)
    (older : Bool) : Option FeishuListInput :=
  if needsRecentSeed state then
    some { chatId, pageSize, sortType := .byCreateTimeDesc }
  else if older then
    match feishuStoredHistoryBound number state with
    | some bound =>
      some { chatId, pageSize, endTime := some bound.endTime, sortType := .byCreateTimeDesc }
    | none =>
      (present (deferredHistoryToken state)).map fun historyToken =>
        { chatId, pageSize, pageToken := some historyToken, sortType := .byCreateTimeDesc }
  else if state.sort = some .desc then
    some { chatId, pageSize, pageToken := state.pageToken, sortType := .byCreateTimeDesc }
  else if state.recentSeeded && (present state.pageToken).isNone then
    some { chatId, pageSize, startTime := liveStart number state, sortType := .byCreateTimeAsc }
  else
    some {
      chatId
      pageSize
      pageToken := state.pageToken
      startTime := state.startTime
      sortType := .byCreateTimeAsc }

def feishuHistoryHasMore (page : FeishuHistoryPage) (sort : FeishuSortType)
    (continuation : Bool) : Bool :=
  if sort = .byCreateTimeDesc ∧ !continuation then false else page.hasMore

/-- The token of a page that says there is more. -/
def FeishuHistoryPage.nextToken (page : FeishuHistoryPage) : Option String :=
  if page.hasMore then present page.pageToken else none

/-- The newest page of a chat that has none yet starts both walks. -/
def seededCursor (current : FeishuCursorState) (page : FeishuHistoryPage) : FeishuCursorState :=
  let head := present (laterTime number current.headTime (newestStartTime number page.items))
  match page.nextToken with
  | some token =>
    { startTime := head, headTime := head, historyToken := some token, recentSeeded := true }
  | none => { startTime := head, recentSeeded := true }

/-- A descending page: a newest page keeps the history token it found, a page of the history
walk moves it, and a token that does not move is left for the oldest time. -/
def descendingCursor (current : FeishuCursorState) (page : FeishuHistoryPage)
    (continuation : Bool) : FeishuCursorState :=
  let head := laterTime number current.headTime (newestStartTime number page.items)
  let live := present (current.startTime <|> current.headTime <|> head)
  let existing := deferredHistoryToken current
  let oldest := oldestCreateMs number page.items
  let repeated := continuation && (present existing).isSome && page.hasMore &&
    page.pageToken = existing
  let unstick := repeated && oldest.isSome
  let history :=
    if unstick then none
    else if continuation then page.nextToken
    else if page.hasMore then present existing
    else none
  if history.isSome || unstick then
    { startTime := live
      headTime := laterTime number current.headTime head
      historyToken := history
      historyBefore := if unstick then oldest.map number.print else none
      recentSeeded := true }
  else { startTime := live, recentSeeded := true }

def ascendingCursor (current : FeishuCursorState) (page : FeishuHistoryPage) :
    FeishuCursorState :=
  let head := laterTime number current.headTime (newestStartTime number page.items)
  let lastStart := lastStartTime number page.items <|> current.startTime
  let history := present (deferredHistoryToken current)
  match page.nextToken with
  | some token =>
    { pageToken := some token
      startTime := present lastStart
      recentSeeded := true
      headTime := if head = lastStart then none else present head
      historyToken := history }
  | none =>
    { startTime := present (laterTime number lastStart current.headTime)
      recentSeeded := true
      historyToken := history }

def nextFeishuCursor (current : FeishuCursorState) (page : FeishuHistoryPage)
    (sort : FeishuSortType) (continuation : Bool) : FeishuCursorState :=
  match sort with
  | .byCreateTimeDesc =>
    if needsRecentSeed current then seededCursor number current page
    else descendingCursor number current page continuation
  | .byCreateTimeAsc => ascendingCursor number current page

end Walks

end Regenic.Feishu
