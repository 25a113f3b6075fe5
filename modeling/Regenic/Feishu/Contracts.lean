import Mathlib.Algebra.Order.Floor.Defs
import Mathlib.Data.Rat.Floor
import Regenic.Customer.Contracts
import Regenic.Ingest.Content

/-!
What the Feishu connector passes around: the messages of a chat and the pages they are listed in,
the references to their attachments, and the times it reads out of them.
-/

namespace Regenic.Feishu

open Lib Ingest
open Customer (DateParse nonBlank)

/-- `Number` of a text, none where that is not a finite number, and `String` of a number. -/
structure JsNumber where
  read : String → Option ℚ
  print : ℚ → String
  read_nat : ∀ n : Nat, n ≤ 2 ^ 53 → read (toString n) = some (n : ℚ)
  print_nat : ∀ n : Nat, n ≤ 2 ^ 53 → print n = toString n

/-- The numbers that are written in decimal digits, and their texts. -/
def decimalNumber : JsNumber where
  read text :=
    if text.toList ≠ [] ∧ text.toList.all Char.isDigit then
      some ((Nat.ofDigitChars 10 text.toList 0 : ℕ) : ℚ)
    else none
  print value := toString value.num.toNat
  read_nat n _ := by
    have htext : (toString n).toList = Nat.toDigits 10 n := Nat.toList_repr
    have hdigits : (Nat.toDigits 10 n).all Char.isDigit = true := by
      rw [List.all_eq_true]
      intro c hc
      exact Nat.isDigit_of_mem_toDigits (by omega) (by omega) hc
    rw [htext, if_pos ⟨Nat.toDigits_ne_nil, hdigits⟩]
    rw [Nat.ofDigitChars_toDigits (by omega) (by omega)]
  print_nat n _ := by
    rw [Rat.num_natCast, Int.toNat_natCast]

/-- `Number(left) >= Number(right)` -/
def JsNumber.atLeast (number : JsNumber) (left right : String) : Bool :=
  match number.read left, number.read right with
  | some left, some right => right ≤ left
  | _, _ => false

/-! ## Messages -/

structure FeishuMention where
  key : Option String := none
  id : Option String := none
  name : Option String := none
  deriving DecidableEq, Repr

structure FeishuSender where
  id : Option String := none
  senderType : Option String := none
  name : Option String := none
  deriving DecidableEq, Repr

structure FeishuHistoryItem where
  messageId : String
  msgType : String
  createTime : Option String := none
  deleted : Bool := false
  rootId : Option String := none
  parentId : Option String := none
  sender : Option FeishuSender := none
  content : Option String := none
  mentions : List FeishuMention := []
  deriving DecidableEq, Repr

structure FeishuHistoryPage where
  items : List FeishuHistoryItem := []
  hasMore : Bool := false
  pageToken : Option String := none
  deriving DecidableEq, Repr

inductive FeishuSortType where
  | byCreateTimeAsc
  | byCreateTimeDesc
  deriving DecidableEq, Repr

structure FeishuListInput where
  chatId : String
  pageSize : Nat
  pageToken : Option String := none
  startTime : Option String := none
  endTime : Option String := none
  sortType : FeishuSortType
  timeoutMs : Option Nat := none
  deriving DecidableEq, Repr

inductive FeishuMediaKind where
  | image
  | file
  deriving DecidableEq, Repr

def FeishuMediaKind.name : FeishuMediaKind → String
  | .image => "image"
  | .file => "file"

structure FeishuMediaRef where
  kind : FeishuMediaKind
  key : String
  filename : Option String := none
  mediaType : Option String := none
  deriving DecidableEq, Repr

inductive FeishuSenderKind where
  | user
  | assistant
  deriving DecidableEq, Repr

inductive MessageDirection where
  | inbound
  | outbound
  deriving DecidableEq, Repr

/-- What the connector keeps of a message for the records it makes of it. -/
structure FeishuSnapshot where
  messageId : String
  occurredAt : String
  actorId : String
  actorLabel : Option String := none
  senderKind : FeishuSenderKind
  direction : MessageDirection
  text : Option String := none
  type : Option String := none
  threadId : Option String := none
  parentExternalId : Option String := none
  refs : List FeishuMediaRef
  deriving DecidableEq, Repr

structure FeishuMediaJob extends FeishuSnapshot where
  key : String
  kind : FeishuMediaKind
  filename : Option String := none
  mediaType : Option String := none
  attempts : Int
  retryAfter : Option ℚ := none
  deriving DecidableEq

/-- A record of a channel, as the arguments of `channelRecord` and the operation. -/
structure ChannelRecord where
  operation : IngestOperation
  externalId : String
  occurredAt : String
  actorId : String
  actorLabel : Option String := none
  kind : FeishuSenderKind
  direction : MessageDirection
  scopeId : String
  scopeName : Option String := none
  conversationKind : Option String := none
  type : Option String := none
  parentExternalId : Option String := none
  text : Option String := none
  content : List ContentPart
  deriving DecidableEq, Repr

inductive FeishuChatMode where
  | group
  | p2p
  deriving DecidableEq, Repr

structure FeishuChatPollConnectorOptions where
  connectorId : String
  orgId : String
  chatId : String
  chatName : Option String := none
  chatMode : Option FeishuChatMode := none
  pageSize : Nat
  selfUserId : Option String := none
  deriving DecidableEq, Repr

structure ConnectorPollOptions where
  older : Bool := false
  latest : Bool := false
  media : Option Bool := none
  before : Option String := none
  beforeExternalId : Option String := none
  deriving DecidableEq, Repr

/-- The parts of the language and of the message reader that the connector works with. -/
structure FeishuEnv where
  number : JsNumber
  dateParse : DateParse
  /-- `new Date(ms).toISOString()` -/
  toIso : ℚ → String
  sha256 : String → String
  extractFeishuText : FeishuHistoryItem → List (String × String) → Option String
  extractFeishuMedia : FeishuHistoryItem → List FeishuMediaRef
  /-- The names that the mentions of a page bring with them. -/
  feishuMentionNames : List FeishuHistoryItem → List (String × String)

def feishuConversationKind : Option FeishuChatMode → Option String
  | some .p2p => some "direct"
  | some .group => some "group"
  | none => none

def senderKind : Option String → Option FeishuSenderKind
  | some "user" => some .user
  | some "app" => some .assistant
  | some "bot" => some .assistant
  | _ => none

def isFeishuSelfSender (senderId selfUserId : Option String) : Bool :=
  let sender := (senderId.map jsTrim).getD ""
  let self := (selfUserId.map jsTrim).getD ""
  sender ≠ "" && self ≠ "" && sender = self

def emptyToUndefined (value : Option String) : Option String := value.filter nonBlank

/-! ## Times -/

section Times

variable (number : JsNumber)

/-- A create time in milliseconds; a small number counts seconds. -/
def feishuCreateTimeMs (createTime : Option String) : Option ℚ :=
  ((present createTime).bind number.read).bind fun n =>
    if n ≤ 0 then none else some (if n < 10 ^ 12 then n * 1000 else n)

def feishuCreateTimeToStartSeconds (createTime : Option String) : Option String :=
  (feishuCreateTimeMs number createTime).map fun ms => number.print (⌊ms / 1000⌋ : ℤ)

def laterTime (left right : Option String) : Option String :=
  match present left, present right with
  | none, _ => right
  | some _, none => left
  | some l, some r => if number.atLeast l r then left else right

def newestStartTime (items : List FeishuHistoryItem) : Option String :=
  items.foldl (fun newest item =>
    laterTime number newest (feishuCreateTimeToStartSeconds number item.createTime)) none

def lastStartTime (items : List FeishuHistoryItem) : Option String :=
  items.reverse.findSome? fun item =>
    present (feishuCreateTimeToStartSeconds number item.createTime)

def oldestCreateMs (items : List FeishuHistoryItem) : Option ℚ :=
  items.foldl (fun oldest item =>
    match feishuCreateTimeMs number item.createTime, oldest with
    | none, _ => oldest
    | some ms, none => some ms
    | some ms, some oldest => some (if ms < oldest then ms else oldest)) none

end Times

/-! ## Attachments -/

def feishuMediaLocator (kind : FeishuMediaKind) (key : String) : String :=
  "feishu:" ++ kind.name ++ ":" ++ key

theorem feishuMediaLocator_ne_empty (kind : FeishuMediaKind) (key : String) :
    feishuMediaLocator kind key ≠ "" := by
  intro hempty
  have hlist := congrArg String.toList hempty
  simp [feishuMediaLocator] at hlist

/-- A locator names one key. -/
theorem feishuMediaLocator_key {kind kind' : FeishuMediaKind} {key key' : String}
    (h : feishuMediaLocator kind key = feishuMediaLocator kind' key') : key = key' := by
  have hlist := congrArg String.toList h
  cases kind <;> cases kind' <;> simp [feishuMediaLocator, FeishuMediaKind.name] at hlist
  all_goals exact String.toList_inj.mp hlist

def pointerAttachment (ref : FeishuMediaRef) : ContentPart where
  role := .attachment
  mediaType := ref.mediaType.getD
    (match ref.kind with
      | .image => "image/png"
      | .file => "application/octet-stream")
  sourceFilename := some (ref.filename.getD
    (match ref.kind with
      | .image => "image.png"
      | .file => "attachment"))
  content := .pointer (feishuMediaLocator ref.kind ref.key)

def pointerAttachments (refs : List FeishuMediaRef) : List ContentPart :=
  refs.map pointerAttachment

theorem pointerAttachment_locator (ref : FeishuMediaRef) :
    (pointerAttachment ref).externalLocator? = some (feishuMediaLocator ref.kind ref.key) :=
  present_some.mpr ⟨rfl, feishuMediaLocator_ne_empty ref.kind ref.key⟩

def sniffMediaType (bytes : Bytes) (fallback : String) : String :=
  if [0x89, 0x50, 0x4e, 0x47].isPrefixOf bytes && 8 ≤ bytes.length then "image/png"
  else if [0xff, 0xd8, 0xff].isPrefixOf bytes then "image/jpeg"
  else if [0x47, 0x49, 0x46, 0x38].isPrefixOf bytes then "image/gif"
  else if [0x52, 0x49, 0x46, 0x46].isPrefixOf bytes &&
    [0x57, 0x45, 0x42, 0x50].isPrefixOf (bytes.drop 8) then "image/webp"
  else if [0x25, 0x50, 0x44, 0x46].isPrefixOf bytes then "application/pdf"
  else if '/' ∈ fallback.toList then fallback
  else "application/octet-stream"

end Regenic.Feishu
