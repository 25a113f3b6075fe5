import Regenic.Inbox.Prefs
import Regenic.Inbox.Store
import Regenic.Lib.Pool

/-!
What an ingest does to the list surface once its records are in: it reads the accepted events
and the prefs of their threads one by one, decides, and writes the patches later, either each
on its own or inside the commit of its page. Other clients write in between.
-/

namespace Regenic.Inbox

open Lib Ingest

structure SurfaceStore where
  tables : InboxTables := {}
  prefs : Prefs := ∅

/-- `conflict` is the `AuthorityConflictError`; any other error ends the ingest. -/
inductive SurfaceFailure where
  | conflict
  | failed (message : String)
  deriving DecidableEq, Repr

/-! ## Store calls -/

inductive SurfaceCall where
  | getEvent (orgId eventId : String)
  | getDisposition (eventId : String)
  | getConversationPref (key : PrefKey)
  | listInbox (orgId threadId : String)
  | putConversationPref (input : ConversationPrefPatch)
  | commitSyncPage (ingest : IngestCommitRequest) (prefs : List ConversationPrefPatch)
  deriving DecidableEq, Repr

/-- `listInbox` of one thread answers with the number of its items. -/
def SurfaceCall.Answer : SurfaceCall → Type
  | .getEvent _ _ => Option EventRecord
  | .getDisposition _ => Option MessageDisposition
  | .getConversationPref _ => Option ConversationPref
  | .listInbox _ _ => Nat
  | .putConversationPref _ => Unit
  | .commitSyncPage _ _ => Except SurfaceFailure Unit

namespace SurfaceStore

variable (s : SurfaceStore)

/-- `listInbox` for current work; a query that names threads is not scoped by what is
hidden. -/
def listInbox (orgId threadId : String) : Nat :=
  (s.tables.decided orgId threadId).countP fun event =>
    (s.tables.authority.dispositions.get? event.id).any (·.disposition = .currentWork) &&
      s.tables.isCurrentHead event.id

def getConversationPref (key : PrefKey) : Option ConversationPref :=
  (s.prefs.get? key).map toPref

def putConversationPref (input : ConversationPrefPatch) : SurfaceStore :=
  { s with prefs := putConversationPrefUnlocked s.prefs input }

def leaseNotHeld : String := "Connector lease is not held by the attempt owner"

/-- One transaction: the events with their dispositions, the prefs, and the settlement, which
throws where the lease is lost. -/
def commitSyncPage (leaseHeld : Bool) (ingest : IngestCommitRequest)
    (prefs : List ConversationPrefPatch) : Except SurfaceFailure Unit × SurfaceStore :=
  match s.tables.commitIngestUnlocked ingest with
  | .error .conflict => (.error .conflict, s)
  | .error (.failed message) => (.error (.failed message), s)
  | .ok tables =>
    if leaseHeld then (.ok (), { tables, prefs := prefs.foldl putConversationPrefUnlocked s.prefs })
    else (.error (.failed leaseNotHeld), s)

end SurfaceStore

def SurfaceCall.exec : (c : SurfaceCall) → Bool → SurfaceStore → c.Answer × SurfaceStore
  | .getEvent orgId eventId, _, s => (s.tables.authority.getEvent orgId eventId, s)
  | .getDisposition eventId, _, s =>
    ((s.tables.authority.dispositions.get? eventId).map (·.disposition), s)
  | .getConversationPref key, _, s => (s.getConversationPref key, s)
  | .listInbox orgId threadId, _, s => (s.listInbox orgId threadId, s)
  | .putConversationPref input, _, s => ((), s.putConversationPref input)
  | .commitSyncPage ingest prefs, leaseHeld, s => s.commitSyncPage leaseHeld ingest prefs

abbrev SurfaceProg (α : Type) : Type := Prog SurfaceCall.Answer SurfaceFailure α

def ask (c : SurfaceCall) : SurfaceProg c.Answer := Prog.perform c

/-! ## Collecting and writing patches -/

/-- The events and dispositions that a batch still holds itself. -/
structure KnownEvents where
  events : List EventRecord := []
  dispositions : List Ingest.ArrangementDecision := []

def KnownEvents.event? (known : KnownEvents) (id : String) : Option EventRecord :=
  known.events.reverse.find? (·.id = id)

def KnownEvents.disposition? (known : KnownEvents) (id : String) : Option MessageDisposition :=
  (known.dispositions.reverse.find? (·.eventId = id)).map (·.disposition)

def readEvent (orgId : String) (known : KnownEvents) (id : String) :
    SurfaceProg (Option EventRecord) :=
  match known.event? id with
  | some event => pure (some event)
  | none => ask (.getEvent orgId id)

def readDisposition (known : KnownEvents) (id : String) :
    SurfaceProg (Option MessageDisposition) :=
  match known.disposition? id with
  | some disposition => pure (some disposition)
  | none => ask (.getDisposition id)

def readEvents (orgId : String) (known : KnownEvents) : List String →
    SurfaceProg (List SurfaceEvent)
  | [] => pure []
  | id :: rest => do
    match ← readEvent orgId known id with
    | none => readEvents orgId known rest
    | some event => do
      let disposition ← readDisposition known id
      let more ← readEvents orgId known rest
      pure (⟨event, disposition⟩ :: more)

def readOnDesk (orgId threadId : String) (needsOnDesk : Bool) : SurfaceProg Bool :=
  if needsOnDesk then do
    let count : Nat ← ask (.listInbox orgId threadId)
    pure (decide (0 < count))
  else pure false

def readThreads (orgId : String) (needsOnDesk : Bool) : List String →
    SurfaceProg (List SurfaceThread)
  | [] => pure []
  | threadId :: rest => do
    let pref : Option ConversationPref ← ask (.getConversationPref ⟨orgId, threadId⟩)
    let onDesk ← readOnDesk orgId threadId needsOnDesk
    let more ← readThreads orgId needsOnDesk rest
    pure (⟨threadId, pref, onDesk⟩ :: more)

/-- The threads of the events, each where its first event stands. -/
def surfaceThreads (events : List SurfaceEvent) : List String :=
  keepFirst id (events.map (·.threadId))

def collectListSurfacePatches (orgId now : String) (eventIds : List String)
    (known : KnownEvents) : SurfaceProg (List ConversationPrefPatch) := do
  let events ← readEvents orgId known eventIds
  let threads ← readThreads orgId (events.any (·.event.operation = .tombstone))
    (surfaceThreads events)
  pure (listSurfacePatches orgId now events threads)

def putPatches : List ConversationPrefPatch → SurfaceProg Unit
  | [] => pure ()
  | patch :: rest => do
    let _ : Unit ← ask (.putConversationPref patch)
    putPatches rest

def applyListSurfaceAfterIngest (orgId now : String) (eventIds : List String) :
    SurfaceProg Unit := do
  let patches ← collectListSurfacePatches orgId now eventIds {}
  putPatches patches

/-- A page whose events and patches are committed at once. -/
structure SurfacePage where
  known : KnownEvents
  ingest : IngestCommitRequest
  finishedAt : String

/-- Whether the page went in. After a conflict its records are ingested one by one, which
reads and writes no pref. -/
def commitPreparedPage (page : SurfacePage) (prefs : List ConversationPrefPatch) :
    SurfaceProg Bool := do
  let result : Except SurfaceFailure Unit ← ask (.commitSyncPage page.ingest prefs)
  match result with
  | .ok _ => pure true
  | .error .conflict => pure false
  | .error (.failed message) => .fail (.failed message)

structure SurfaceRequest where
  orgId : String
  now : String
  eventIds : List String
  page : Option SurfacePage := none

/-- The part of `IngestionService.ingest` that touches the list surface. -/
def ingestSurface (request : SurfaceRequest) : SurfaceProg Unit :=
  match request.page with
  | none => applyListSurfaceAfterIngest request.orgId request.now request.eventIds
  | some page => do
    let prefs ← collectListSurfacePatches request.orgId page.finishedAt request.eventIds page.known
    let committed ← commitPreparedPage page prefs
    if committed then pure ()
    else applyListSurfaceAfterIngest request.orgId request.now request.eventIds

/-! ## The ingest among other writes -/

/-- A write of the user: the reason goes with the fold. -/
structure UserWrite extends PrefKey where
  hidden : Option Bool := none
  title : Option (Option String) := none
  pinned : Option Bool := none
  lastReadAt : Option (Option String) := none
  lastReadExternalId : Option (Option String) := none
  updatedAt : String
  deriving DecidableEq, Repr

def UserWrite.fold (write : UserWrite) : Option Fold :=
  write.hidden.map fun hidden => if hidden then foldByHuman else unfold

def UserWrite.patch (write : UserWrite) : ConversationPrefPatch where
  toPrefKey := write.toPrefKey
  title := write.title
  pinned := write.pinned
  hidden := write.fold.map (·.hidden)
  hiddenReason := write.fold.map (·.reason)
  lastReadAt := write.lastReadAt
  lastReadExternalId := write.lastReadExternalId
  updatedAt := write.updatedAt

/-- `others` stands for any write of other clients to the event tables, and for what the ingest
itself does there between its calls. -/
inductive SurfaceStep where
  | ingest (leaseHeld : Bool)
  | user (write : UserWrite)
  | others (tables : InboxTables)

structure SurfaceRun where
  prog : SurfaceProg Unit
  store : SurfaceStore

def SurfaceRun.next (run : SurfaceRun) (leaseHeld : Bool) : SurfaceRun :=
  match run.prog with
  | .call c next =>
    let answered := c.exec leaseHeld run.store
    { prog := next answered.1, store := answered.2 }
  | _ => run

def SurfaceRun.step (run : SurfaceRun) : SurfaceStep → SurfaceRun
  | .ingest leaseHeld => run.next leaseHeld
  | .user write => { run with store := run.store.putConversationPref write.patch }
  | .others tables => { run with store := { run.store with tables } }

def SurfaceRun.start (request : SurfaceRequest) (store : SurfaceStore) : SurfaceRun where
  prog := ingestSurface request
  store := store

def SurfaceRun.finished (run : SurfaceRun) : Bool :=
  match run.prog with
  | .call _ _ => false
  | _ => true

end Regenic.Inbox
