import Mathlib.Data.List.Lex
import Regenic.Lib.Text
import Regenic.Lib.Utf16

/-!
The items of the inbox list as the window holds them: what a row is compared by, and the revision
text of a row.
-/

namespace Regenic.Desktop

open Lib

/-- `string | null | undefined`. -/
abbrev Nullable : Type := Option (Option String)

/-- `value ?? ""` -/
def orEmpty (value : Nullable) : String := value.join.getD ""

structure InboxEvent where
  id : String
  source : String
  externalId : String
  contentHash : Option String := none
  occurredAt : String
  deriving DecidableEq, Repr

structure InboxAttachment where
  filename : String
  mediaType : String
  dataBase64 : Option String := none
  deriving DecidableEq, Repr

inductive MessageKind where
  | user
  | assistant
  | system
  deriving DecidableEq, Repr

inductive ListTitleMode where
  | conversation
  | face
  | prompt
  deriving DecidableEq, Repr

def ListTitleMode.name : ListTitleMode → String
  | .conversation => "conversation"
  | .face => "face"
  | .prompt => "prompt"

inductive ThreadActivity where
  | awaitingUser
  | working
  deriving DecidableEq, Repr

inductive ReceiptState where
  | sent
  | read
  deriving DecidableEq, Repr

def ReceiptState.name : ReceiptState → String
  | .sent => "sent"
  | .read => "read"

structure MessageReceipt where
  state : ReceiptState
  readAt : Option String := none
  readCount : Option Nat := none
  deriving DecidableEq, Repr

inductive AttentionClass where
  | waitingYou
  | needsAck
  | running
  | unread
  | quiet
  deriving DecidableEq, Repr

/-- The statuses of the work beside a row are only ever compared and written out. -/
structure WorkDeliveryFace where
  status : String
  writeBack : String
  attempts : Nat
  deriving DecidableEq, Repr

structure WorkFace where
  id : String
  status : String
  hasResult : Option Bool := none
  canWriteBack : Option Bool := none
  delivery : Option WorkDeliveryFace := none
  updatedAt : Option String := none
  deriving DecidableEq, Repr

structure InboxViewItem where
  event : InboxEvent
  bodyText : Option String := none
  attachments : Option (List InboxAttachment) := none
  channelLabel : String
  kind : MessageKind
  canSend : Bool
  awaitReply : Option Bool := none
  listTitle : Option ListTitleMode := none
  threadId : Option String := none
  title : Nullable := none
  pinned : Option Bool := none
  hidden : Option Bool := none
  prefUpdatedAt : Nullable := none
  conversationLabel : Nullable := none
  conversationKind : Nullable := none
  unitKind : Nullable := none
  unitKindLabel : Nullable := none
  actorLabel : Nullable := none
  activity : Option ThreadActivity := none
  /-- The ids of the prompts. -/
  prompts : Option (List String) := none
  unread : Option Bool := none
  unreadCount : Option Nat := none
  canReceipt : Option Bool := none
  receipt : Option MessageReceipt := none
  attention : Option AttentionClass := none
  work : Option WorkFace := none
  /-- The thread that a message was forwarded from. -/
  forwardedFrom : Option String := none
  forwardedTo : Option String := none
  deriving DecidableEq, Repr

/-- `isBeforeEvent` -/
def isBeforeEvent (event : InboxEvent) (before beforeId : String) : Bool :=
  codeUnits event.occurredAt < codeUnits before ||
    (event.occurredAt = before && codeUnits event.id < codeUnits beforeId)

/-! ## Revisions -/

/-- `flag ? "1" : "0"` -/
def flagText (flag : Option Bool) : String := if flag = some true then "1" else "0"

def attachmentPreviewRevision (attachments : Option (List InboxAttachment)) : String :=
  "|".intercalate ((attachments.getD []).map fun file =>
    "\t".intercalate [file.filename, file.mediaType,
      toString (((present file.dataBase64).map fun data => (codeUnits data).length).getD 0)])

def promptRevision (item : InboxViewItem) : String := ",".intercalate (item.prompts.getD [])

def workRevision (item : InboxViewItem) : String :=
  match item.work with
  | none => ""
  | some work =>
    "\t".intercalate [
      work.id,
      work.status,
      flagText work.hasResult,
      if work.canWriteBack = some false then "0" else "1",
      work.updatedAt.getD "",
      (work.delivery.map (·.status)).getD "",
      (work.delivery.map (·.writeBack)).getD "",
      toString ((work.delivery.map (·.attempts)).getD 0)]

/-- The text that a revision has of a body: content that is hashed is told by its hash. -/
def revisionBody (item : InboxViewItem) : String :=
  if (present item.event.contentHash).isSome then "" else item.bodyText.getD ""

/-- The fields that the revision of a row is made of. -/
def revisionFields (item : InboxViewItem) : List String :=
  [item.event.id, item.event.contentHash.getD "", item.event.occurredAt, orEmpty item.title,
    flagText item.pinned, flagText item.hidden, orEmpty item.prefUpdatedAt,
    orEmpty item.actorLabel, orEmpty item.conversationLabel, item.channelLabel,
    (item.listTitle.map (·.name)).getD "", revisionBody item,
    attachmentPreviewRevision item.attachments, flagText item.unread, flagText item.canReceipt,
    (item.receipt.map (·.state.name)).getD "", promptRevision item, item.forwardedFrom.getD "",
    item.forwardedTo.getD "", workRevision item]

def itemRevision (item : InboxViewItem) : String := "\t".intercalate (revisionFields item)

def inboxRevision (items : List InboxViewItem) : String :=
  items.foldl (fun revision item => revision ++ "\n" ++ itemRevision item) (toString items.length)

end Regenic.Desktop
