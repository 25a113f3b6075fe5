import Regenic.Lib.Pool
import Regenic.Reply.Contracts
import Regenic.Work.Store

/-!
The calls of the work services: the work tables, the channel, the memory of a dispatcher and
of a timeout, and everything outside, whose answers are arbitrary. A put names the copy that
its row was made from; the store does not look at it.
-/

namespace Regenic.Work

open Lib Reply

/-! ## The outside -/

/-- What an executor does with the context it is started with. -/
inductive StartStep where
  | spawnSysout
  | writeStdin (threadId : String)
  deriving DecidableEq, Repr

/-- How a start goes on the executor's side. -/
structure StartPlan where
  steps : List StartStep := []
  outcome : Except Thrown ExecutorRunHandle

/-- Whether a live prompt has an option that matches the result. -/
inductive PromptMatch where
  | noPrompt
  | noOption
  | option
  deriving DecidableEq, Repr

inductive WorkOutside where
  | now
  | randomUUID
  | ensureMounted
  | hasExecutor (executorType : String)
  | executorStatus (run : WorkRun)
  | reapIfInboxEnded (item : WorkItem) (run : WorkRun) (handle : ExecutorRunHandle)
  | executorResume (item : WorkItem) (run : WorkRun)
  | executorCancel (run : WorkRun)
  | executorStart (item : WorkItem) (run : WorkRun)
  | spawnSysout (run : WorkRun)
  | writeStdin (run : WorkRun) (threadId : String)
  | wantsWriteBack (workItemId : String) (recipe : Recipe)
  | foldFinishedWorkThreads (item : WorkItem)
  | recipeTextMatches (item : WorkItem) (recipe : Recipe)
  | shouldDeferWork (item : WorkItem) (recipe : Recipe)
  | startContext (item : WorkItem) (recipe : Recipe)
  | followSysout (run : WorkRun)
  | matchesRecipe (recipe : Recipe) (threadId : String)
  | headUnchanged (item : WorkItem) (recipe : Recipe)
  | findForThread (thread : ConversationThread)
  | bindEgress (thread : ConversationThread)
  | ingestSent (thread : ConversationThread)
  | matchPrompt (thread : ConversationThread) (text : String)
  deriving DecidableEq, Repr

def WorkOutside.Answer : WorkOutside → Type
  | .now => Instant
  | .randomUUID => String
  | .ensureMounted => Unit
  | .hasExecutor _ => Bool
  | .executorStatus _ | .reapIfInboxEnded _ _ _ | .executorResume _ _ => ExecutorRunHandle
  | .executorCancel _ => Unit
  | .executorStart _ _ => StartPlan
  -- The thread of the new session.
  | .spawnSysout _ => String
  | .writeStdin _ _ => Unit
  | .wantsWriteBack _ _ => Bool
  | .foldFinishedWorkThreads _ => Unit
  | .recipeTextMatches _ _ | .shouldDeferWork _ _ => Bool
  | .startContext _ _ | .followSysout _ => Unit
  | .matchesRecipe _ _ | .headUnchanged _ _ => Bool
  -- Whether the driver found can reply.
  | .findForThread _ => Option Bool
  | .bindEgress _ | .ingestSent _ => Unit
  | .matchPrompt _ _ => PromptMatch

/-! ## State -/

/-- A start that a dispatcher has reserved in its memory. -/
structure StartSlot where
  dispatcher : Nat
  workItemId : String
  recipeId : String
  deriving DecidableEq, Repr

/-- The promise of a write-back against its timer: whichever settles first decides. -/
inductive Race where
  | open
  | settled
  | expired
  deriving DecidableEq, Repr

/-- A send or a prompt answer for a delivery, and whether the channel accepted it. -/
structure ChannelSend where
  workItemId : String
  idempotencyKey : Option String
  accepted : Bool
  deriving DecidableEq, Repr

structure WorkState where
  tables : WorkTables := {}
  starting : List StartSlot := []
  races : List Race := []
  /-- Every send and prompt answer so far, in order. -/
  sends : List ChannelSend := []

/-! ## Calls -/

inductive WorkCall where
  | listWorkItems (statuses : List WorkItemStatus)
  | getWorkItem (id : String)
  | getWorkItemByThread (threadId : String)
  | putWorkItem (copy : Option WorkItem) (item : WorkItem)
  | listWorkRuns (workItemId : String)
  | getWorkRun (id : String)
  | getActiveWorkRun (workItemId : String)
  | putWorkRun (copy : Option WorkRun) (run : WorkRun)
  | claimWorkRunStart (run : WorkRun) (maxConcurrent : Option Nat)
  | listDueWorkDeliveries (now : Instant)
  | getWorkDeliveryByItem (workItemId : String)
  /-- `getWorkDeliveryByItem(..) ?? current`. -/
  | latestWorkDelivery (current : WorkDelivery)
  | putWorkDelivery (copy : Option WorkDelivery) (delivery : WorkDelivery)
  | getRecipe (id : String)
  | listRecipes
  | isStarting (dispatcher : Nat) (workItemId : String)
  | reserveStart (dispatcher : Nat) (workItemId : String) (recipe : Recipe)
      (items : List WorkItem)
  | takeStart (dispatcher : Nat) (workItemId : String) (recipeId : String)
  | releaseStart (dispatcher : Nat) (workItemId : String)
  | startFlush (item : WorkItem) (recipe : Recipe) (delivery : WorkDelivery)
  | withTimeout (current : WorkDelivery) (now : Instant)
  | settle (race : Nat)
  | expire (race : Nat)
  | egressSend (delivery : WorkDelivery) (text : String)
  | answerPrompt (delivery : WorkDelivery) (text : String)
  | outside (call : WorkOutside)
  deriving DecidableEq, Repr

def WorkCall.Answer : WorkCall → Type
  | .listWorkItems _ => List WorkItem
  | .getWorkItem _ | .getWorkItemByThread _ => Option WorkItem
  | .putWorkItem _ _ => Unit
  | .listWorkRuns _ => List WorkRun
  | .getWorkRun _ | .getActiveWorkRun _ => Option WorkRun
  | .putWorkRun _ _ => Unit
  | .claimWorkRunStart _ _ => Bool
  | .listDueWorkDeliveries _ => List WorkDelivery
  | .getWorkDeliveryByItem _ => Option WorkDelivery
  | .latestWorkDelivery _ => WorkDelivery
  | .putWorkDelivery _ _ => Unit
  | .getRecipe _ => Option Recipe
  | .listRecipes => List Recipe
  | .isStarting _ _ | .reserveStart _ _ _ _ => Bool
  | .takeStart _ _ _ | .releaseStart _ _ => Unit
  | .startFlush _ _ _ => Unit
  | .withTimeout _ _ => Nat
  | .settle _ | .expire _ => Bool
  | .egressSend _ _ => ChannelReceipt
  | .answerPrompt _ _ => Bool
  | .outside call => call.Answer

abbrev WorkCall.Response (c : WorkCall) : Type := Except Thrown c.Answer

/-- What the outside decides about one call. -/
structure WorkEnv where
  send : Except Thrown ChannelReceipt
  prompt : Except Thrown Bool
  answer : (call : WorkOutside) → Except Thrown call.Answer

namespace WorkState

/-- Settle a race that is still open. -/
def settle (s : WorkState) (race : Nat) (outcome : Race) : Bool × WorkState :=
  if s.races[race]? = some .open then (true, { s with races := s.races.set race outcome })
  else (false, s)

def record (s : WorkState) (delivery : WorkDelivery) (accepted : Bool) : WorkState :=
  { s with sends := s.sends ++
      [{ workItemId := delivery.workItemId, idempotencyKey := delivery.idempotencyKey
         accepted }] }

def isStarting (s : WorkState) (dispatcher : Nat) (workItemId : String) : Bool :=
  s.starting.any fun slot => slot.dispatcher = dispatcher ∧ slot.workItemId = workItemId

def releaseStart (s : WorkState) (dispatcher : Nat) (workItemId : String) : WorkState :=
  { s with starting := s.starting.filter fun slot =>
      ¬(slot.dispatcher = dispatcher ∧ slot.workItemId = workItemId) }

def takeStart (s : WorkState) (dispatcher : Nat) (workItemId recipeId : String) : WorkState :=
  { s with starting := (s.releaseStart dispatcher workItemId).starting ++
      [{ dispatcher, workItemId, recipeId }] }

/-- The memory of the dispatcher against the items that it has listed. -/
def hasStartCapacity (s : WorkState) (dispatcher : Nat) (workItemId : String) (recipe : Recipe)
    (items : List WorkItem) : Bool :=
  let own := s.starting.filter fun slot => slot.dispatcher = dispatcher
  let occupiedItems := items.filter fun item => item.recipeId = some recipe.id
  recipeHasStartCapacity recipe items (some workItemId)
    (recipeStartInflight recipe.id (own.map fun slot => (slot.workItemId, slot.recipeId))
      (occupiedItems.map (·.id)) (some workItemId))

end WorkState

def WorkCall.exec : (c : WorkCall) → WorkEnv → WorkState → c.Response × WorkState
  | .listWorkItems statuses, _, s => (.ok (s.tables.listWorkItems statuses), s)
  | .getWorkItem id, _, s => (.ok (s.tables.getWorkItem id), s)
  | .getWorkItemByThread threadId, _, s => (.ok (s.tables.getWorkItemByThread threadId), s)
  | .putWorkItem _ item, _, s => (.ok (), { s with tables := s.tables.putWorkItem item })
  | .listWorkRuns workItemId, _, s => (.ok (s.tables.listWorkRuns workItemId), s)
  | .getWorkRun id, _, s => (.ok (s.tables.getWorkRun id), s)
  | .getActiveWorkRun workItemId, _, s => (.ok (s.tables.getActiveWorkRun workItemId), s)
  | .putWorkRun _ run, _, s => (.ok (), { s with tables := s.tables.putWorkRun run })
  | .claimWorkRunStart run maxConcurrent, _, s =>
    match s.tables.claimWorkRunStart run maxConcurrent with
    | some (claimed, tables) => (.ok claimed, { s with tables })
    | none => (.error (.error ("Work run already exists: " ++ run.id)), s)
  | .listDueWorkDeliveries now, _, s => (.ok (s.tables.listDueWorkDeliveries now), s)
  | .getWorkDeliveryByItem workItemId, _, s =>
    (.ok (s.tables.getWorkDeliveryByItem workItemId), s)
  | .latestWorkDelivery current, _, s =>
    (.ok ((s.tables.getWorkDeliveryByItem current.workItemId).getD current), s)
  | .putWorkDelivery _ delivery, _, s =>
    (.ok (), { s with tables := s.tables.putWorkDelivery delivery })
  | .getRecipe id, _, s => (.ok (s.tables.recipes.get? id), s)
  | .listRecipes, _, s => (.ok s.tables.recipes.rows, s)
  | .isStarting dispatcher workItemId, _, s => (.ok (s.isStarting dispatcher workItemId), s)
  | .reserveStart dispatcher workItemId recipe items, _, s =>
    -- Without a cap the item is looked for again; with one its lane has looked already.
    if (recipe.maxConcurrent = none ∧ s.isStarting dispatcher workItemId = true) ∨
        s.hasStartCapacity dispatcher workItemId recipe items = false then (.ok false, s)
    else
      (.ok true, s.takeStart dispatcher workItemId recipe.id)
  | .takeStart dispatcher workItemId recipeId, _, s =>
    (.ok (), s.takeStart dispatcher workItemId recipeId)
  | .releaseStart dispatcher workItemId, _, s => (.ok (), s.releaseStart dispatcher workItemId)
  | .startFlush _ _ _, _, s => (.ok (), s)
  | .withTimeout _ _, _, s => (.ok s.races.length, { s with races := s.races ++ [.open] })
  | .settle race, _, s =>
    let (won, s') := s.settle race .settled
    (.ok won, s')
  | .expire race, _, s =>
    let (won, s') := s.settle race .expired
    (.ok won, s')
  | .egressSend delivery _, env, s =>
    match env.send with
    | .ok receipt => (.ok receipt, s.record delivery receipt.accepted)
    | .error error => (.error error, s.record delivery false)
  | .answerPrompt delivery _, env, s =>
    match env.prompt with
    | .ok accepted => (.ok accepted, s.record delivery accepted)
    | .error error => (.error error, s.record delivery false)
  | .outside call, env, s => (env.answer call, s)

abbrev WorkProg (α : Type) : Type := Prog WorkCall.Response Thrown α

/-- Make a call and pass on what it throws. -/
def ask (c : WorkCall) : WorkProg c.Answer :=
  .call c fun
    | .ok answer => .done answer
    | .error error => .fail error

def throwConnector {α : Type} (code message : String) (httpStatus : Nat) : WorkProg α :=
  .fail (.connector { code, message, httpStatus })

def liftThrown {α : Type} : Except Thrown α → WorkProg α
  | .ok a => .done a
  | .error error => .fail error

/-- The value or the error of a program that is awaited under `try`. -/
def attempt {α : Type} (p : WorkProg α) : WorkProg (Except Thrown α) :=
  Prog.tryCatch (fun error => .done (.error error)) (p.bind fun a => .done (.ok a))

/-- `deliveryErrorMessage`. -/
def errorMessage : Thrown → String
  | .connector error => error.message
  | .deadline message => message
  | .driver _ message _ => message
  | .sendNotAccepted _ message _ => message
  | .error message => message

namespace Call

def listWorkItems (statuses : List WorkItemStatus) : WorkProg (List WorkItem) :=
  ask (.listWorkItems statuses)

def getWorkItem (id : String) : WorkProg (Option WorkItem) := ask (.getWorkItem id)

def getWorkItemByThread (threadId : String) : WorkProg (Option WorkItem) :=
  ask (.getWorkItemByThread threadId)

/-- Put a row that `copy` was spread into. -/
def putWorkItem (copy item : WorkItem) : WorkProg Unit := ask (.putWorkItem (some copy) item)

def putNewWorkItem (item : WorkItem) : WorkProg Unit := ask (.putWorkItem none item)

def listWorkRuns (workItemId : String) : WorkProg (List WorkRun) := ask (.listWorkRuns workItemId)

def getWorkRun (id : String) : WorkProg (Option WorkRun) := ask (.getWorkRun id)

def getActiveWorkRun (workItemId : String) : WorkProg (Option WorkRun) :=
  ask (.getActiveWorkRun workItemId)

def putWorkRun (copy run : WorkRun) : WorkProg Unit := ask (.putWorkRun (some copy) run)

def putNewWorkRun (run : WorkRun) : WorkProg Unit := ask (.putWorkRun none run)

def claimWorkRunStart (run : WorkRun) (maxConcurrent : Option Nat) : WorkProg Bool :=
  ask (.claimWorkRunStart run maxConcurrent)

def listDueWorkDeliveries (now : Instant) : WorkProg (List WorkDelivery) :=
  ask (.listDueWorkDeliveries now)

def getWorkDeliveryByItem (workItemId : String) : WorkProg (Option WorkDelivery) :=
  ask (.getWorkDeliveryByItem workItemId)

def latestWorkDelivery (current : WorkDelivery) : WorkProg WorkDelivery :=
  ask (.latestWorkDelivery current)

def putWorkDelivery (copy delivery : WorkDelivery) : WorkProg Unit :=
  ask (.putWorkDelivery (some copy) delivery)

def putNewWorkDelivery (delivery : WorkDelivery) : WorkProg Unit :=
  ask (.putWorkDelivery none delivery)

def getRecipe (id : String) : WorkProg (Option Recipe) := ask (.getRecipe id)

def listRecipes : WorkProg (List Recipe) := ask .listRecipes

def isStarting (dispatcher : Nat) (workItemId : String) : WorkProg Bool :=
  ask (.isStarting dispatcher workItemId)

def reserveStart (dispatcher : Nat) (workItemId : String) (recipe : Recipe)
    (items : List WorkItem) : WorkProg Bool :=
  ask (.reserveStart dispatcher workItemId recipe items)

def takeStart (dispatcher : Nat) (workItemId recipeId : String) : WorkProg Unit :=
  ask (.takeStart dispatcher workItemId recipeId)

def releaseStart (dispatcher : Nat) (workItemId : String) : WorkProg Unit :=
  ask (.releaseStart dispatcher workItemId)

def startFlush (item : WorkItem) (recipe : Recipe) (delivery : WorkDelivery) : WorkProg Unit :=
  ask (.startFlush item recipe delivery)

def withTimeout (current : WorkDelivery) (now : Instant) : WorkProg Nat :=
  ask (.withTimeout current now)

def settle (race : Nat) : WorkProg Bool := ask (.settle race)

def expire (race : Nat) : WorkProg Bool := ask (.expire race)

def egressSend (delivery : WorkDelivery) (text : String) : WorkProg ChannelReceipt :=
  ask (.egressSend delivery text)

def answerPrompt (delivery : WorkDelivery) (text : String) : WorkProg Bool :=
  ask (.answerPrompt delivery text)

def outside (call : WorkOutside) : WorkProg call.Answer := ask (.outside call)

def now : WorkProg Instant := outside .now

def randomUUID : WorkProg String := outside .randomUUID

def ensureMounted : WorkProg Unit := outside .ensureMounted

def hasExecutor (executorType : String) : WorkProg Bool := outside (.hasExecutor executorType)

def executorStatus (run : WorkRun) : WorkProg ExecutorRunHandle := outside (.executorStatus run)

def reapIfInboxEnded (item : WorkItem) (run : WorkRun) (handle : ExecutorRunHandle) :
    WorkProg ExecutorRunHandle := outside (.reapIfInboxEnded item run handle)

def executorResume (item : WorkItem) (run : WorkRun) : WorkProg ExecutorRunHandle :=
  outside (.executorResume item run)

def executorCancel (run : WorkRun) : WorkProg Unit := outside (.executorCancel run)

def executorStart (item : WorkItem) (run : WorkRun) : WorkProg StartPlan :=
  outside (.executorStart item run)

def spawnSysout (run : WorkRun) : WorkProg String := outside (.spawnSysout run)

def writeStdin (run : WorkRun) (threadId : String) : WorkProg Unit :=
  outside (.writeStdin run threadId)

def wantsWriteBack (workItemId : String) (recipe : Recipe) : WorkProg Bool :=
  outside (.wantsWriteBack workItemId recipe)

def foldFinishedWorkThreads (item : WorkItem) : WorkProg Unit :=
  outside (.foldFinishedWorkThreads item)

def recipeTextMatches (item : WorkItem) (recipe : Recipe) : WorkProg Bool :=
  outside (.recipeTextMatches item recipe)

def shouldDeferWork (item : WorkItem) (recipe : Recipe) : WorkProg Bool :=
  outside (.shouldDeferWork item recipe)

def startContext (item : WorkItem) (recipe : Recipe) : WorkProg Unit :=
  outside (.startContext item recipe)

def followSysout (run : WorkRun) : WorkProg Unit := outside (.followSysout run)

def matchesRecipe (recipe : Recipe) (threadId : String) : WorkProg Bool :=
  outside (.matchesRecipe recipe threadId)

def headUnchanged (item : WorkItem) (recipe : Recipe) : WorkProg Bool :=
  outside (.headUnchanged item recipe)

def findForThread (thread : ConversationThread) : WorkProg (Option Bool) :=
  outside (.findForThread thread)

def bindEgress (thread : ConversationThread) : WorkProg Unit := outside (.bindEgress thread)

def ingestSent (thread : ConversationThread) : WorkProg Unit := outside (.ingestSent thread)

def matchPrompt (thread : ConversationThread) (text : String) : WorkProg PromptMatch :=
  outside (.matchPrompt thread text)

end Call

end Regenic.Work
