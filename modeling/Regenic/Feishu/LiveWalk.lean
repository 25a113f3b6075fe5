import Regenic.Feishu.Connector
import Regenic.Lib.AppendLog
import Regenic.Lib.Run
import Regenic.Sync.Phase

/-!
The live walk of a Feishu chat: polls that thread one live cursor over a chat to which messages
are only appended, and what they have returned.
-/

namespace Regenic.Feishu

open Lib Ingest

/-! ## The chat -/

/-- A message of a chat, with the second that its create time reads as. -/
structure ChatMessage (number : JsNumber) where
  item : FeishuHistoryItem
  second : Nat
  reads : feishuCreateTimeToStartSeconds number item.createTime = some (toString second)
  small : second ≤ 2 ^ 53

section Listing

variable {number : JsNumber} (position : String → Nat) (chat : List (ChatMessage number))

/-- The position in the chat at which an ascending list starts: that of its token, or of the
first message from the start time on. -/
def listStart (input : FeishuListInput) : Nat :=
  match present input.pageToken with
  | some token => position token
  | none =>
    (chat.takeWhile fun m =>
      ((m.second : ℚ) < (input.startTime.bind number.read).getD 0 : Bool)).length

/-- What a list call is documented to answer. The client knows by a token where to go on. -/
structure Lists (input : FeishuListInput) (page : FeishuHistoryPage) : Prop where
  size : page.items.length ≤ input.pageSize
  ascending : input.sortType = .byCreateTimeAsc → ∃ count,
    page.items = ((chat.drop (listStart position chat input)).take count).map (·.item) ∧
      (page.hasMore = false → chat.length ≤ listStart position chat input + count) ∧
      ∀ token, page.nextToken = some token →
        position token = listStart position chat input + page.items.length
  descending : input.sortType = .byCreateTimeDesc → present input.pageToken = none →
    present input.endTime = none → ∃ count,
      page.items = (chat.reverse.take count).map (·.item) ∧
        (page.hasMore = false → chat.length ≤ count)

end Listing

/-! ## Runs -/

/-- The page that a chat was seeded with, and the chat that it was listed from. -/
structure Seeding (number : JsNumber) where
  chat : List (ChatMessage number)
  items : List FeishuHistoryItem

structure LiveRun (number : JsNumber) where
  chat : List (ChatMessage number) := []
  cursor : Option String := none
  /-- The messages of the pages that polls have returned. -/
  returned : List FeishuHistoryItem := []
  seeding : Option (Seeding number) := none

/-- The messages that arrive, and the live poll after them: a plain one, or one of the
interactive lane. -/
structure LivePoll (number : JsNumber) where
  arrived : List (ChatMessage number) := []
  latest : Bool := false
  media : Option Bool := none
  /-- What the media job store holds. -/
  jobs : List FeishuMediaJob := []
  answers : FeishuAnswers

def LivePoll.poll {number : JsNumber} (e : LivePoll number) : ConnectorPollOptions where
  latest := e.latest
  media := e.media

section Runs

variable (env : FeishuEnv) (options : FeishuChatPollConnectorOptions)
  (s : LiveRun env.number) (e : LivePoll env.number)

/-- The walk that the cursor stands for. -/
def LiveRun.state : FeishuCursorState :=
  { decodeFeishuCursor env.number s.cursor with mediaJobs := [] }

/-- The page that a poll lists; one for downloads only lists none. -/
def LivePoll.page : Option FeishuHistoryPage :=
  if e.media = some true then none
  else fetchPage env options e.answers (pollRequest env options (s.state env) e.poll)

/-- The cursor that the host keeps after a live poll. -/
def LivePoll.writtenCursor (result : PollResult) : Option String :=
  if (Sync.cursorWriteFor (Sync.cursorKindFromPoll e.poll.older e.poll.before) false).live then
    result.nextCursor
  else s.cursor

/-- Messages arrive and a poll runs; one that throws leaves the cursor. -/
def LivePoll.step : LiveRun env.number :=
  match pollInSlot env options e.answers s.cursor e.poll e.jobs with
  | none => { s with chat := s.chat ++ e.arrived }
  | some (result, _) =>
    let page := e.page env options s
    { chat := s.chat ++ e.arrived
      cursor := e.writtenCursor env s result
      returned := s.returned ++ (page.map (·.items)).getD []
      seeding := s.seeding <|> page.map fun page => ⟨s.chat ++ e.arrived, page.items⟩ }

/-- Messages are only appended, in the order of their create times, and the client answers as
documented. -/
structure LivePoll.Fits (position : String → Nat) : Prop where
  inOrder : InRankOrder ChatMessage.second (s.chat ++ e.arrived)
  lists : ∀ input page, e.answers.listMessages input = some page →
    Lists position (s.chat ++ e.arrived) input page

end Runs

/-! ## Gaps -/

section Gaps

variable {number : JsNumber}

/-- The seeding page does not end inside a second. -/
def Seeding.Whole (seeding : Seeding number) : Prop :=
  ∀ m ∈ seeding.chat, ∀ first ∈ seeding.chat, first.item ∈ seeding.items →
    m.second = first.second → m.item ∈ seeding.items

/-- The message is of a later second than the oldest one of the seeding page, or of that second
where the page holds all of it. -/
def Seeding.Precedes (seeding : Seeding number) (m : ChatMessage number) : Prop :=
  ∃ first ∈ seeding.chat, first.item ∈ seeding.items ∧
    (first.second < m.second ∨ first.second = m.second ∧ seeding.Whole)

/-- The messages that a gap can be made of are returned. -/
def Seeding.Told (seeding : Seeding number) (returned : List FeishuHistoryItem)
    (m : ChatMessage number) : Prop :=
  seeding.Precedes m → m.item ∈ returned

variable (env : FeishuEnv) (s : LiveRun env.number)

/-- Between two walks, every message from the seeding page up to the live start is returned. -/
def LiveRun.NoGap : Prop :=
  (s.state env).pageToken = none → ∀ seeding, s.seeding = some seeding →
    ∀ start, (liveStart env.number (s.state env)).bind env.number.read = some start →
      ∀ m ∈ s.chat, seeding.Precedes m → (m.second : ℚ) < start → m.item ∈ s.returned

/-- A newest page that leaves older messages out, while a history token is held, leaves out no
message of an earlier second than the newest that was not returned. -/
def LivePoll.Reaches (options : FeishuChatPollConnectorOptions) (e : LivePoll env.number) :
    Prop :=
  e.latest = true → ∀ page, e.page env options s = some page → page.hasMore = true →
    (present (deferredHistoryToken (s.state env))).isSome →
      ∀ seeding, s.seeding = some seeding → ∀ m ∈ s.chat ++ e.arrived, seeding.Precedes m →
        m.item ∈ s.returned ∨ m.item ∈ page.items ∨
          ∀ newest ∈ s.chat ++ e.arrived, newest.second ≤ m.second

instance decidableWhole (seeding : Seeding number) : Decidable seeding.Whole :=
  inferInstanceAs (Decidable (∀ m ∈ seeding.chat, ∀ first ∈ seeding.chat,
    first.item ∈ seeding.items → m.second = first.second → m.item ∈ seeding.items))

instance decidablePrecedes (seeding : Seeding number) (m : ChatMessage number) :
    Decidable (seeding.Precedes m) :=
  inferInstanceAs (Decidable (∃ first ∈ seeding.chat, first.item ∈ seeding.items ∧
    (first.second < m.second ∨ first.second = m.second ∧ seeding.Whole)))

instance decidableNoGap : Decidable (s.NoGap env) :=
  inferInstanceAs (Decidable ((s.state env).pageToken = none → ∀ seeding ∈ s.seeding,
    ∀ start ∈ (liveStart env.number (s.state env)).bind env.number.read,
      ∀ m ∈ s.chat, seeding.Precedes m → (m.second : ℚ) < start → m.item ∈ s.returned))

instance decidableReaches (options : FeishuChatPollConnectorOptions)
    (e : LivePoll env.number) : Decidable (e.Reaches env s options) :=
  inferInstanceAs (Decidable (e.latest = true → ∀ page ∈ e.page env options s,
    page.hasMore = true → (present (deferredHistoryToken (s.state env))).isSome →
      ∀ seeding ∈ s.seeding, ∀ m ∈ s.chat ++ e.arrived, seeding.Precedes m →
        m.item ∈ s.returned ∨ m.item ∈ page.items ∨
          ∀ newest ∈ s.chat ++ e.arrived, newest.second ≤ m.second))

end Gaps

end Regenic.Feishu
