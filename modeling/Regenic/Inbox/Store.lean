import Regenic.Ingest.Aliases
import Regenic.Lib.JsonText

/-!
The inbox tables of the SQLite authority store. Each event is filed under a thread; the row of
`thread_heads` holds the face of a thread, and the writes that file or decide an event write
it again for one thread.
-/

namespace Regenic.Inbox

open Lib Ingest

/-! ## Rows -/

/-- The columns of an event that place it in a thread. -/
structure EventFiling where
  eventId : String
  threadId : String
  occurredAt : String
  deriving DecidableEq, Repr

structure ArrangementDecision extends Ingest.ArrangementDecision where
  reasonCodes : List String := []
  deriving DecidableEq, Repr

structure DecisionReasons where
  eventId : String
  reasonCodes : List String
  deriving DecidableEq, Repr

structure ThreadKey where
  orgId : String
  threadId : String
  deriving DecidableEq, Repr

structure ThreadHead extends ThreadKey where
  faceEventId : String
  faceOccurredAt : String
  hasCurrentWork : Bool
  deriving DecidableEq, Repr

structure InsertEventInput extends Ingest.InsertEventInput where
  threadId : Option String := none
  occurredAt : String
  deriving DecidableEq, Repr

structure TombstoneEvent extends Ingest.AuthorityTables.TombstoneEvent where
  threadId : Option String := none
  occurredAt : String
  deriving DecidableEq, Repr

structure IngestCommitRequest where
  appends : List InsertEventInput := []
  dispositions : List ArrangementDecision := []
  deriving DecidableEq, Repr

/-- The rows of `events` and `message_dispositions` are kept in two parts each, of which the
first is what the other modules read. -/
structure InboxTables where
  authority : AuthorityTables := {}
  filings : Table EventFiling.eventId := ∅
  reasons : Table DecisionReasons.eventId := ∅
  threadHeads : Table ThreadHead.toThreadKey := ∅

/-! ## LIKE -/

def foldCase (c : Char) : Char := if c.isUpper then c.toLower else c

/-- `LIKE`: `%` is any text, `_` any character, letters of ASCII match in either case. -/
def like : List Char → List Char → Bool
  | [], text => text.isEmpty
  | '%' :: pattern, text => text.tails.any fun rest => like pattern rest
  | '_' :: pattern, text => match text with
    | [] => false
    | _ :: rest => like pattern rest
  | c :: pattern, text => match text with
    | [] => false
    | d :: rest => foldCase c = foldCase d && like pattern rest

/-- `reason_codes_json LIKE '%thread_status%'`. -/
def isThreadStatus (reasonCodes : List String) : Bool :=
  like "%thread_status%".toList (Json.render (.array (reasonCodes.map .string)))

namespace InboxTables

variable (db : InboxTables)

/-! ## The face of a thread -/

/-- `EXISTS (SELECT 1 FROM source_heads …)`. -/
def isCurrentHead (eventId : String) : Bool :=
  db.authority.heads.rows.any fun head => head.currentEventId = eventId

def occurredAt (eventId : String) : String :=
  ((db.filings.get? eventId).map (·.occurredAt)).getD ""

def reasonCodes (eventId : String) : List String :=
  ((db.reasons.get? eventId).map (·.reasonCodes)).getD []

/-- `message_dispositions d JOIN events e ON e.id = d.event_id`, the rows of one thread. -/
def decided (orgId threadId : String) : List EventRecord :=
  db.authority.events.rows.filter fun event =>
    event.orgId = orgId && (db.filings.get? event.id).any (·.threadId = threadId) &&
      (db.authority.dispositions.get? event.id).isSome

/-- `ORDER BY CASE WHEN current … THEN 0 ELSE 1 END, occurred_at DESC, id DESC`. -/
def comesBefore (event other : EventRecord) : Bool :=
  if db.isCurrentHead event.id ≠ db.isCurrentHead other.id then db.isCurrentHead event.id
  else if db.occurredAt event.id ≠ db.occurredAt other.id then
    db.occurredAt other.id < db.occurredAt event.id
  else other.id < event.id

def firstOf (best : Option EventRecord) (event : EventRecord) : Option EventRecord :=
  match best with
  | none => some event
  | some found => if db.comesBefore event found then some event else some found

def face (orgId threadId : String) : Option EventRecord :=
  ((db.decided orgId threadId).filter fun event =>
    event.operation ≠ .tombstone && !isThreadStatus (db.reasonCodes event.id)).foldl db.firstOf none

def hasCurrentWork (orgId threadId : String) : Bool :=
  (db.decided orgId threadId).any fun event =>
    (db.authority.dispositions.get? event.id).any (·.disposition = .currentWork) &&
      db.isCurrentHead event.id

/-- The row that a refresh writes, none where it deletes. -/
def computedHead (orgId threadId : String) : Option ThreadHead :=
  (db.face orgId threadId).map fun event =>
    { orgId
      threadId
      faceEventId := event.id
      faceOccurredAt := db.occurredAt event.id
      hasCurrentWork := db.hasCurrentWork orgId threadId }

def refreshThreadHeadWithinTransaction (orgId : String) (threadId : Option String) :
    InboxTables :=
  match (threadId.map jsTrim).filter (· ≠ "") with
  | none => db
  | some id =>
    match db.computedHead orgId id with
    | none =>
      { db with threadHeads := db.threadHeads.filter fun head => head.toThreadKey ≠ ⟨orgId, id⟩ }
    | some head => { db with threadHeads := db.threadHeads.put head }

/-! ## Writes -/

def filingOf (input : InsertEventInput) : EventFiling where
  eventId := input.id
  threadId := input.threadId.getD (conversationId input.source input.externalId input.id)
  occurredAt := input.occurredAt

/-- The thread that is written again is the one the caller named. -/
def insertWithinTransaction (input : InsertEventInput) :
    Except AuthorityError (InboxTables × EventRecord) :=
  match db.authority.insertWithinTransaction input.toInsertEventInput with
  | .error error => .error error
  | .ok (authority, event) =>
    let filed := { db with authority, filings := db.filings.put (filingOf input) }
    .ok (filed.refreshThreadHeadWithinTransaction event.orgId input.threadId, event)

def insert (input : InsertEventInput) : Except AuthorityError InboxTables :=
  (db.insertWithinTransaction input).map Prod.fst

def append (input : InsertEventInput) : Except AuthorityError InboxTables :=
  db.insert { input with operation := .create }

def appendRevision (input : InsertEventInput) : Except AuthorityError InboxTables :=
  db.insert { input with operation := .revise }

def markTombstone (input : TombstoneEvent) : Except AuthorityError InboxTables :=
  let current := db.authority.findBySourceIdentity input.toSourceIdentity
  db.insert
    { toSourceIdentity := input.toSourceIdentity
      id := input.id
      operation := .tombstone
      contentHash := current.bind (·.contentHash)
      parentEventId := current.map (·.id)
      expectedHeadId := input.expectedHeadId
      threadId := input.threadId
      occurredAt := input.occurredAt }

def putDispositionWithinTransaction (decision : ArrangementDecision) :
    Except AuthorityError InboxTables :=
  match db.authority.putDispositionWithinTransaction decision.toArrangementDecision with
  | .error error => .error error
  | .ok authority =>
    let put :=
      { db with authority, reasons := db.reasons.put ⟨decision.eventId, decision.reasonCodes⟩ }
    .ok (put.refreshThreadHeadWithinTransaction decision.orgId
      ((put.filings.get? decision.eventId).map (·.threadId)))

def commitIngestUnlocked (request : IngestCommitRequest) : Except AuthorityError InboxTables := do
  let appended ← request.appends.foldlM append db
  request.dispositions.foldlM putDispositionWithinTransaction appended

def bindSourceIdentityAliases (input : SourceIdentityAliasBind) : Except String InboxTables :=
  (db.authority.bindSourceIdentityAliases input).map fun authority => { db with authority }

end InboxTables

end Regenic.Inbox
