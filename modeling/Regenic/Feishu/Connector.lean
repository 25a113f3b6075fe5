import Regenic.Feishu.MediaJobs

/-!
One poll of a Feishu chat, over what the client answers while it runs. A poll that throws has
stored nothing.
-/

namespace Regenic.Feishu

open Lib Ingest
open Customer (DateParse nonBlank)

/-- What the client and the clock answer during one poll; none where a call throws. -/
structure FeishuAnswers where
  listMessages : FeishuListInput → Option FeishuHistoryPage
  resolveNames : List FeishuHistoryItem → Option (List (String × String))
  selfUserId : Option String := none
  downloadResource : Option (FeishuDownloadResource → Option FeishuDownloadedFile) := none
  now : String
  /-- `Date.now()`, for a clock text that does not read. -/
  clock : Int

structure PollResult where
  deliveryId : String
  receivedAt : String
  records : List ChannelRecord
  nextCursor : Option String
  hasMore : Bool
  mediaPending : Bool
  pollHint : SyncPollHint

section Poll

variable (env : FeishuEnv) (options : FeishuChatPollConnectorOptions) (answers : FeishuAnswers)

def selfUserId : Option String :=
  match present (options.selfUserId.map jsTrim) with
  | some configured => some configured
  | none => present (answers.selfUserId.map jsTrim)

def clockMs : ℚ := ((env.dateParse answers.now).getD answers.clock : Int)

/-! ## Messages -/

def actorLabel (item : FeishuHistoryItem) (kind : FeishuSenderKind)
    (names : List (String × String)) : Option String :=
  let named := emptyToUndefined (item.sender.bind (·.name)) <|>
    (present (item.sender.bind (·.id))).bind fun id => names.lookup id
  match present named with
  | some name => some name
  | none =>
    if kind = .assistant ∧ options.chatMode = some .p2p then options.chatName else none

def feishuCreateTimeToIso (createTime : Option String) (fallback : String) : String :=
  (feishuCreateTimeMs env.number createTime).elim fallback env.toIso

def isThreadReply (item : FeishuHistoryItem) : Bool :=
  (emptyToUndefined item.rootId).any (· ≠ item.messageId) ||
    (emptyToUndefined item.parentId).any (· ≠ item.messageId)

def mediaSnapshot (item : FeishuHistoryItem) (names : List (String × String))
    (selfId : Option String) : Option FeishuSnapshot :=
  if item.deleted then none
  else
    let text := env.extractFeishuText item names
    let media := env.extractFeishuMedia item
    match senderKind (item.sender.bind (·.senderType)), present (item.sender.bind (·.id)) with
    | some kind, some actorId =>
      if (present text).isNone ∧ media = [] then none
      else some {
        messageId := item.messageId
        occurredAt := feishuCreateTimeToIso env item.createTime answers.now
        actorId
        actorLabel := actorLabel options item kind names
        senderKind := kind
        direction := if isFeishuSelfSender (some actorId) selfId then .outbound else .inbound
        text
        type := some (if isThreadReply item then "thread_reply" else "message")
        parentExternalId :=
          if isThreadReply item then
            (emptyToUndefined item.parentId <|> emptyToUndefined item.rootId).map fun id =>
              options.chatId ++ ":" ++ id
          else none
        refs := media }
    | _, _ => none

def toRecord (snapshot : FeishuSnapshot) : ChannelRecord :=
  recordFromSnapshot options snapshot (pointerAttachments snapshot.refs) .create

def deliveryId (cursor nextCursor anchor : Option String) : String :=
  let identity := options.chatId ++ "\x00" ++ cursor.getD "initial" ++ "\x00" ++
    nextCursor.getD "complete" ++ ((present anchor).elim "" fun anchor => "\x00" ++ anchor)
  "feishu-history:" ++ options.chatId ++ ":" ++ env.sha256 identity

/-! ## Listing -/

def anchoredHistoryHops : Nat := 2

/-- One scroll: messages strictly before the anchor; a second page is asked for only where the
first kept none. -/
def walkAnchoredHistory (anchor : FeishuHistoryAnchor) (timeoutMs : Option Nat) :
    Nat → Option String → Option FeishuHistoryPage
  | 0, _ => some { items := [], hasMore := true }
  | hops + 1, token => do
    let page ← answers.listMessages {
      chatId := options.chatId
      pageSize := options.pageSize
      pageToken := token
      endTime := some anchor.endTime
      sortType := .byCreateTimeDesc
      timeoutMs }
    let kept := page.items.filter fun item =>
      feishuItemBeforeAnchor env.number item anchor.anchorMs anchor.externalId options.chatId
    let hasMore := page.hasMore && (present page.pageToken).isSome
    if kept ≠ [] ∨ !hasMore then some { items := kept, hasMore }
    else walkAnchoredHistory anchor timeoutMs hops page.pageToken

/-- What one poll asks the source for. -/
inductive FeishuRequest where
  | anchored (anchor : FeishuHistoryAnchor)
  | bounded (bound : FeishuHistoryAnchor)
  | latest (input : FeishuListInput)
  | planned (input : FeishuListInput)
  | nothing

def FeishuRequest.isNothing : FeishuRequest → Bool
  | .nothing => true
  | _ => false

/-- The poll of a thread that was just opened. -/
def interactiveTip (poll : ConnectorPollOptions) : Bool := poll.latest && !poll.older

def pollRequest (state : FeishuCursorState) (poll : ConnectorPollOptions) : FeishuRequest :=
  match feishuHistoryAnchor env.number env.dateParse poll with
  | some anchor => .anchored anchor
  | none =>
    match feishuStoredHistoryBound env.number state with
    | some bound => .bounded bound
    | none =>
      if interactiveTip poll then
        .latest {
          chatId := options.chatId
          pageSize := options.pageSize
          sortType := .byCreateTimeDesc
          timeoutMs := some 8000 }
      else
        match planFeishuHistoryRequest env.number options.chatId options.pageSize state
            poll.older with
        | some input => .planned input
        | none => .nothing

def fetchPage : FeishuRequest → Option FeishuHistoryPage
  | .anchored anchor => walkAnchoredHistory env options answers anchor (some 8000)
      anchoredHistoryHops none
  | .bounded bound => walkAnchoredHistory env options answers bound none anchoredHistoryHops none
  | .latest input => answers.listMessages input
  | .planned input => answers.listMessages input
  | .nothing => some {}

/-- A newest page, and a scroll, do without the network for their names. -/
def resolveNames (poll : ConnectorPollOptions) (request : FeishuRequest)
    (items : List FeishuHistoryItem) : Option (List (String × String)) :=
  match request with
  | .nothing => some []
  | .anchored _ => some (env.feishuMentionNames items)
  | _ =>
    if interactiveTip poll then some (env.feishuMentionNames items)
    else answers.resolveNames items

/-- The cursor state after the page of a request. -/
def nextState (state : FeishuCursorState) (request : FeishuRequest) (page : FeishuHistoryPage) :
    FeishuCursorState :=
  match request with
  | .anchored _ => feishuCursorAfterAnchor state page.hasMore
  | .bounded _ => nextHistoryBoundState env.number state page
  | .latest input => retainHistoryBefore state
      (nextFeishuCursor env.number state page input.sortType false)
  | .planned input => retainHistoryBefore state
      (nextFeishuCursor env.number state page input.sortType
        (input.sortType = .byCreateTimeDesc && (present input.pageToken).isSome))
  | .nothing => retainHistoryBefore state
      (nextFeishuCursor env.number state page .byCreateTimeAsc false)

def pageHasMore (request : FeishuRequest) (page : FeishuHistoryPage) : Bool :=
  match request with
  | .anchored _ => page.hasMore
  | .bounded _ => page.hasMore
  | .latest input => feishuHistoryHasMore page input.sortType false
  | .planned input => feishuHistoryHasMore page input.sortType
      (input.sortType = .byCreateTimeDesc && (present input.pageToken).isSome)
  | .nothing => false

def pageHint (state next : FeishuCursorState) (request : FeishuRequest)
    (page : FeishuHistoryPage) : SyncPollHint :=
  match request with
  | .anchored _ => ⟨state.recentSeeded, page.hasMore⟩
  | .bounded _ => ⟨state.recentSeeded, page.hasMore⟩
  | _ => feishuPollHint next

def FeishuRequest.anchor : FeishuRequest → Option String
  | .anchored anchor => some anchor.before
  | _ => none

/-! ## The poll -/

/-- A poll up to its downloads: the queue they are taken from, and what is known of the result
by then. -/
structure PreparedPoll where
  snapshots : List FeishuSnapshot := []
  queue : List FeishuMediaJob
  drains : Bool := false
  nextCursor : Option String
  anchor : Option String := none
  hasMore : Bool := false
  pollHint : SyncPollHint

/-- A poll that leaves the walks where they are. -/
def restingPoll (state : FeishuCursorState) (jobs : List FeishuMediaJob) (drains : Bool) :
    PreparedPoll where
  queue := jobs
  drains := drains
  nextCursor := encodeFeishuCursor state
  pollHint := feishuPollHint state

/-- The snapshots of a page's messages. -/
def pageSnapshots (page : FeishuHistoryPage) (names : List (String × String)) :
    List FeishuSnapshot :=
  page.items.filterMap fun item =>
    mediaSnapshot env options answers item names (selfUserId options answers)

def pagePoll (state : FeishuCursorState) (jobs : List FeishuMediaJob)
    (request : FeishuRequest) (wantMedia : Bool) (page : FeishuHistoryPage)
    (names : List (String × String)) : PreparedPoll :=
  let snapshots := pageSnapshots env options answers page names
  let next := nextState env state request page
  { snapshots
    queue := enqueueFromItems jobs snapshots
    drains := wantMedia
    nextCursor := encodeFeishuCursor next
    anchor := request.anchor
    hasMore := pageHasMore request page
    pollHint := pageHint state next request page }

/-- The poll up to its downloads; none where it throws. -/
def preparePoll (cursor : Option String) (poll : ConnectorPollOptions)
    (stored : List FeishuMediaJob) : Option PreparedPoll :=
  let decoded := decodeFeishuCursor env.number cursor
  let jobs := hydrateMediaJobs stored decoded.mediaJobs
  let state := { decoded with mediaJobs := [] }
  let due := hasDueMediaJobs jobs (clockMs env answers)
  if poll.media = some true then some (restingPoll state jobs due)
  else
    let wantMedia := poll.media ≠ some false
    let request := pollRequest env options state poll
    if request.isNothing && !(wantMedia && due) then some (restingPoll state jobs false)
    else do
      let page ← fetchPage env options answers request
      let names ← resolveNames env answers poll request page.items
      pure (pagePoll env options answers state jobs request wantMedia page names)

def PreparedPoll.finish (prepared : PreparedPoll) (cursor : Option String)
    (drained : List ChannelRecord × List FeishuMediaJob) : PollResult where
  deliveryId := deliveryId env options cursor prepared.nextCursor prepared.anchor
  receivedAt := answers.now
  records := prepared.snapshots.map (toRecord options) ++ drained.1
  nextCursor := prepared.nextCursor
  hasMore := prepared.hasMore
  mediaPending := drained.2 ≠ []
  pollHint := prepared.pollHint

def PreparedPoll.drained (prepared : PreparedPoll) :
    List ChannelRecord × List FeishuMediaJob :=
  if prepared.drains then
    drainMediaJobs options answers.downloadResource prepared.queue (clockMs env answers)
  else ([], prepared.queue)

/-- A poll over the jobs in the store, with the jobs it stores; none where it throws. -/
def pollInSlot (cursor : Option String) (poll : ConnectorPollOptions)
    (stored : List FeishuMediaJob) : Option (PollResult × List FeishuMediaJob) := do
  let prepared ← preparePoll env options answers cursor poll stored
  let drained := prepared.drained env options answers
  pure (prepared.finish env options answers cursor drained, drained.2)

end Poll

end Regenic.Feishu
