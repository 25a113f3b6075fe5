import Regenic.Customer.Contracts
import Regenic.Lib.Pool
import Regenic.Reply.Service

/-!
The calls that the customer service makes: the task store, the business gateway, the reply
service's own calls and everything else outside it, whose answers are arbitrary. Beside the
stored tasks the state keeps what happened to them: what the gateway answered, which of its
answers a task's pages come from, what was handed over to be sent and what the channel accepted.
-/

namespace Regenic.Customer

open Lib Reply

inductive CustomerErrorCode where
  | invalidRequest
  | notFound
  | invalidState
  | contextChanged
  | cursorExpired
  | businessUnavailable
  | coverageIncomplete
  | reviewRequired
  deriving DecidableEq, Repr

inductive CustomerThrown where
  | service (code : CustomerErrorCode) (message : String)
  /-- `CustomerServiceTaskConflictError`. -/
  | conflict
  | reply (thrown : Thrown)
  | error (message : String)
  /-- A thrown value that is no `Error`. -/
  | other
  deriving DecidableEq, Repr

/-- The message of a thrown error that is none of the coordinator's own. -/
def CustomerThrown.message? : CustomerThrown → Option String
  | .service _ message => some message
  | .error message => some message
  | .conflict => some "Customer service task changed; reload and retry"
  | .reply (.connector thrown) => some thrown.message
  | .reply (.deadline message) => some message
  | .reply (.driver _ message _) => some message
  | .reply (.sendNotAccepted _ message _) => some message
  | .reply (.error message) => some message
  | .other => none

/-! ## The task store -/

abbrev TaskTable : Type := Table CustomerServiceTask.key

section Store

variable (dateParse : DateParse)

/-- `putCustomerServiceTask`; the payload column reads back as it was written. -/
def putCustomerServiceTask (tasks : TaskTable) (input : CustomerServiceTask)
    (expectedRevision : Option Nat) :
    Except CustomerThrown (CustomerServiceTask × TaskTable) :=
  match validateCustomerServiceTask dateParse input with
  | .error message => .error (.error message)
  | .ok task =>
    match tasks.get? task.key, expectedRevision with
    | none, none => .ok (task, tasks.put task)
    | some current, some expected =>
      if current.revision = expected ∧ task.revision = expected + 1 then
        .ok (task, tasks.put task)
      else .error .conflict
    | _, _ => .error .conflict

def getCustomerServiceTask (tasks : TaskTable) (orgId taskId : String) :
    Except CustomerThrown (Option CustomerServiceTask) :=
  match tasks.get? (orgId, taskId) with
  | none => .ok none
  | some row =>
    match validateCustomerServiceTask dateParse row with
    | .error message => .error (.error message)
    | .ok task => .ok (some task)

end Store

/-! ## The business gateway -/

structure QueryMember where
  memberKey : String
  businessId : String
  deriving DecidableEq, Repr

structure CustomerBusinessQuery where
  taskId : String
  briefVersion : Nat
  customerId : String
  projectId : String
  batchId : String
  members : List QueryMember
  fields : List String
  queryAt : String
  page : Option String := none
  deriving DecidableEq, Repr

/-- What the gateway was asked, and the page it answered with. -/
structure GatewayAnswer where
  query : CustomerBusinessQuery
  evidence : BusinessEvidence
  deriving DecidableEq, Repr

/-- What a put says of the answers that the task's pages come from. The store does not look
at it. -/
inductive Asked where
  | asBefore
  | forgotten
  | first (answer : GatewayAnswer)
  | continued (answer : GatewayAnswer)
  | again (answers : List GatewayAnswer)
  deriving DecidableEq, Repr

/-- The query round of a task: the answers since its first page was last asked for. -/
def Asked.after (round : List GatewayAnswer) : Asked → List GatewayAnswer
  | .asBefore => round
  | .forgotten => []
  | .first answer => [answer]
  | .continued answer => round ++ [answer]
  | .again answers => answers

/-! ## The outside -/

/-- Of a stored event what the coordinator reads. -/
structure SourceEvent where
  id : String
  contentHash : Option String
  threadId : Option String
  source : String
  externalId : String
  occurredAt : String
  tombstone : Bool
  deriving DecidableEq, Repr

/-- The digest of the bytes of a blob, and the text read from them. -/
structure BlobBody where
  sha256 : String
  text : Option String
  deriving DecidableEq, Repr

/-- What a context search asks the context engine for. -/
structure ContextQuery where
  id : String
  objective : Option String
  query : String
  /-- Without anchors and a thread filter. -/
  related : Bool
  maxItems : Int
  deriving DecidableEq, Repr

structure AssembledContext where
  snapshotId : String
  /-- The events of the bundle that have a text. -/
  eventIds : List String
  deriving DecidableEq, Repr

structure ContextWindow where
  evidence : List CustomerContextEvidence
  continuations : List CustomerContextContinuation
  deriving DecidableEq, Repr

structure ThreadEvent where
  id : String
  threadId : String
  occurredAt : String
  deriving DecidableEq, Repr

/-- The current messages of a conversation, in order. -/
structure ContextThread where
  readEpoch : String
  events : List ThreadEvent
  deriving DecidableEq, Repr

inductive Outside where
  | now
  | createId
  | getEvent (eventId : String)
  | findBySourceIdentity (source externalId : String)
  /-- The media type of a stored blob. -/
  | findBlob (contentHash : String)
  | getBlob (contentHash mediaType : String)
  | assemble (query : ContextQuery)
  | expandThread (threadId : String) (seedIds : List String) (snapshotId : String)
      (maxItems neighbors : Int)
  | currentThread (threadId : String)
  | materializeEvidence (events : List ThreadEvent) (snapshotId : String)
  /-- The id of the event that a delivered reply is shown as. -/
  | sentEventId (view : ReplyView)
  deriving DecidableEq, Repr

def Outside.Answer : Outside → Type
  | .now | .createId | .sentEventId _ => String
  | .getEvent _ | .findBySourceIdentity _ _ => Option SourceEvent
  | .findBlob _ => Option String
  | .getBlob _ _ => BlobBody
  | .assemble _ => AssembledContext
  | .expandThread _ _ _ _ _ => ContextWindow
  | .currentThread _ => ContextThread
  | .materializeEvidence _ _ => List CustomerContextEvidence

/-! ## Calls -/

inductive CustomerCall where
  | getCustomerServiceTask (taskId : String)
  | putCustomerServiceTask (task : CustomerServiceTask) (expectedRevision : Option Nat)
      (asked : Asked)
  | queryBusiness (query : CustomerBusinessQuery)
  | outside (question : Outside)
  | reply (call : ReplyCall)

def CustomerCall.Answer : CustomerCall → Type
  | .getCustomerServiceTask _ => Except CustomerThrown (Option CustomerServiceTask)
  | .putCustomerServiceTask _ _ _ => Except CustomerThrown CustomerServiceTask
  | .queryBusiness _ => Except CustomerThrown BusinessEvidence
  | .outside question => Except CustomerThrown question.Answer
  | .reply call => call.Response

structure CustomerState where
  tasks : TaskTable := ∅
  /-- Every answer of the business gateway. -/
  answered : List GatewayAnswer := []
  /-- The query round of each task. -/
  round : String × String → List GatewayAnswer := fun _ => []
  /-- Request id and text of every draft that a stored task was being sent with. -/
  handed : List (String × String) := []
  reply : ReplyState := {}
  /-- Every intent that `egress.send` was called with, in the order of the calls. -/
  intents : List SendIntent := []
  /-- The intents that the channel has accepted. -/
  accepted : List SendIntent := []

/-- What the outside decides about one call. -/
structure CustomerEnv where
  answer : (question : Outside) → Except CustomerThrown question.Answer
  business : Except CustomerThrown BusinessEvidence
  reply : ReplyEnv

/-- What the customer service is set up with. -/
structure CustomerOptions where
  orgId : String
  /-- The id of the business gateway. -/
  businessId : String
  dateParse : DateParse
  /-- `new Date(ms).toISOString()`. -/
  toISOString : Int → String

def clientRequestId (task : CustomerServiceTask) (draft : CustomerReplyDraft) : String :=
  "customer-service:" ++ task.id ++ ":draft:" ++ toString draft.version

/-- What a task is being sent with. -/
def CustomerServiceTask.handed (task : CustomerServiceTask) : Option (String × String) :=
  if task.status = .sending then task.draft.map fun draft => (clientRequestId task draft, draft.text)
  else none

def CustomerState.stored (s : CustomerState) (tasks : TaskTable) (task : CustomerServiceTask)
    (asked : Asked) : CustomerState :=
  { s with
    tasks
    round := Function.update s.round task.key (asked.after (s.round task.key))
    handed := s.handed ++ task.handed.toList }

def CustomerState.put (s : CustomerState) (dateParse : DateParse) (input : CustomerServiceTask)
    (expectedRevision : Option Nat) (asked : Asked) :
    Except CustomerThrown CustomerServiceTask × CustomerState :=
  match putCustomerServiceTask dateParse s.tasks input expectedRevision with
  | .error thrown => (.error thrown, s)
  | .ok (task, tasks) => (.ok task, s.stored tasks task asked)

def CustomerState.answer (s : CustomerState) (query : CustomerBusinessQuery) :
    Except CustomerThrown BusinessEvidence → Except CustomerThrown BusinessEvidence × CustomerState
  | .error thrown => (.error thrown, s)
  | .ok evidence => (.ok evidence, { s with answered := s.answered ++ [⟨query, evidence⟩] })

/-- The channel's side of a reply call. -/
def CustomerState.sent (s : CustomerState) : ReplyCall → ReplyEnv → CustomerState
  | .startSend intent, _ => { s with intents := s.intents ++ [intent] }
  | .awaitSend index, env =>
    match env.sendOutcome with
    | .ok receipt =>
      if receipt.accepted then { s with accepted := s.accepted ++ s.intents[index]?.toList } else s
    | .error _ => s
  | _, _ => s

def CustomerCall.exec (options : CustomerOptions) :
    (c : CustomerCall) → CustomerEnv → CustomerState → c.Answer × CustomerState
  | .getCustomerServiceTask taskId, _, s =>
    (Customer.getCustomerServiceTask options.dateParse s.tasks options.orgId taskId, s)
  | .putCustomerServiceTask task expectedRevision asked, _, s =>
    s.put options.dateParse task expectedRevision asked
  | .queryBusiness query, env, s => s.answer query env.business
  | .outside question, env, s => (env.answer question, s)
  | .reply call, env, s =>
    ((call.exec env.reply s.reply).1,
      { s.sent call env.reply with reply := (call.exec env.reply s.reply).2 })

/-! ## Programs -/

abbrev CustomerProg (α : Type) : Type := Prog CustomerCall.Answer CustomerThrown α

def throwService {α : Type} (code : CustomerErrorCode) (message : String) : CustomerProg α :=
  .fail (.service code message)

def liftThrown {α : Type} : Except CustomerThrown α → CustomerProg α
  | .ok value => pure value
  | .error thrown => .fail thrown

def ask (question : Outside) : CustomerProg question.Answer := do
  liftThrown (← Prog.perform (CustomerCall.outside question))

def now : CustomerProg String := ask .now

/-- A program of the reply service run by the customer service. -/
def liftReply {α : Type} : ReplyProg α → CustomerProg α
  | .done a => .done a
  | .fail thrown => .fail (.reply thrown)
  | .call c next => .call (.reply c) fun r => liftReply (next r)

/-! ## Arguments

A check of an argument makes no call. -/

def refuse {α : Type} (code : CustomerErrorCode) (message : String) : Except CustomerThrown α :=
  .error (.service code message)

def refuseIf (bad : Bool) (code : CustomerErrorCode) (message : String) :
    Except CustomerThrown Unit :=
  if bad then refuse code message else .ok ()

def required (value field : String) : Except CustomerThrown String :=
  if nonBlank value then .ok (jsTrim value)
  else refuse .invalidRequest (field ++ " is required")

def requiredHash (value : String) : Except CustomerThrown String := do
  let hash ← required value "content_hash"
  refuseIf (!isContentHash hash) .invalidRequest "content_hash must be a lowercase SHA-256 value"
  pure hash

def timestamp (dateParse : DateParse) (value field : String) : Except CustomerThrown String := do
  let text ← required value field
  refuseIf (dateParse text).isNone .invalidRequest (field ++ " must be an ISO timestamp")
  pure text

def boundedInteger (value : Int) (field : String) (minimum maximum : Int) :
    Except CustomerThrown Int :=
  if value < minimum ∨ maximum < value then
    refuse .invalidRequest
      (field ++ " must be an integer from " ++ toString minimum ++ " to " ++ toString maximum)
  else .ok value

/-- An argument checked when it is given. -/
def optionally {α β : Type} (value : Option α) (check : α → Except CustomerThrown β) :
    Except CustomerThrown (Option β) :=
  match value with
  | none => .ok none
  | some value => (check value).map some

/-- `[...new Set(values)]`. -/
def unique (values : List String) : List String := keepFirst id values

/-- A check that continues with `f` has first ended with a result. -/
theorem bind_ok {α β : Type} {x : Except CustomerThrown α} {f : α → Except CustomerThrown β}
    {b : β} (h : x >>= f = .ok b) : ∃ a, x = .ok a ∧ f a = .ok b := by
  cases x with
  | error thrown => cases h
  | ok a => exact ⟨a, rfl, h⟩

theorem required_ok {value field text : String} (h : required value field = .ok text) :
    text = jsTrim value := by
  unfold required at h
  split at h
  · cases h
    rfl
  · cases h

theorem refuseIf_ok {bad : Bool} {code : CustomerErrorCode} {message : String}
    (h : refuseIf bad code message = .ok ()) : bad = false := by
  cases bad with
  | false => rfl
  | true => cases h

end Regenic.Customer
