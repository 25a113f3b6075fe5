import Regenic.Ingest.Service

/-!
The list surface of a conversation: whether its thread is hidden, and by whom. A patch names
the fields that it changes; ingestion folds and unfolds by policy and leaves a thread alone that
a human folded.
-/

namespace Regenic.Inbox

open Lib Ingest

inductive HiddenReason where
  | human
  | policy
  deriving DecidableEq, Repr

structure PrefKey where
  orgId : String
  threadId : String
  deriving DecidableEq, Repr

structure ConversationPref extends PrefKey where
  title : Option String
  pinned : Bool
  hidden : Bool
  hiddenReason : Option HiddenReason
  lastReadAt : Option String
  lastReadExternalId : Option String
  updatedAt : String
  deriving DecidableEq, Repr

/-- A field that is none is not changed. -/
structure ConversationPrefPatch extends PrefKey where
  title : Option (Option String) := none
  pinned : Option Bool := none
  hidden : Option Bool := none
  hiddenReason : Option (Option HiddenReason) := none
  lastReadAt : Option (Option String) := none
  lastReadExternalId : Option (Option String) := none
  updatedAt : String
  deriving DecidableEq, Repr

structure Fold where
  hidden : Bool
  reason : Option HiddenReason
  deriving DecidableEq, Repr

def effectiveHiddenReason (input : Fold) : Option HiddenReason :=
  if !input.hidden then none
  else if input.reason = some .policy then some .policy
  else some .human

def foldByHuman : Fold := ⟨true, some .human⟩

def unfold : Fold := ⟨false, none⟩

structure SurfaceInput extends Fold where
  onDesk : Bool
  acceptedCurrentWork : Bool
  acceptedTombstone : Bool
  deriving DecidableEq, Repr

/-- Human folds stay put; a policy fold reopens on new work, and a tombstone that leaves the
thread off the desk folds it by policy. -/
def nextHiddenPref (input : SurfaceInput) : Option Fold :=
  let reason := effectiveHiddenReason input.toFold
  if reason = some .human then none
  else if input.acceptedCurrentWork && input.hidden && reason = some .policy then some unfold
  else if !input.hidden && !input.onDesk && input.acceptedTombstone then
    some ⟨true, some .policy⟩
  else none

/-! ## The stored pref -/

abbrev Prefs : Type := Table ConversationPref.toPrefKey

def patchedReason (input : ConversationPrefPatch) (current : Option ConversationPref)
    (hidden : Bool) : Option HiddenReason :=
  if hidden then
    input.hiddenReason.getD
      (current.bind (·.hiddenReason) <|> if input.hidden = some true then some .human else none)
  else none

def patchedPref (input : ConversationPrefPatch) (current : Option ConversationPref) :
    ConversationPref :=
  let hidden := input.hidden.getD (current.any (·.hidden))
  { toPrefKey := input.toPrefKey
    title := input.title.getD (current.bind (·.title))
    pinned := input.pinned.getD (current.any (·.pinned))
    hidden
    hiddenReason := patchedReason input current hidden
    lastReadAt := input.lastReadAt.getD (current.bind (·.lastReadAt))
    lastReadExternalId := input.lastReadExternalId.getD (current.bind (·.lastReadExternalId))
    updatedAt := input.updatedAt }

def putConversationPrefUnlocked (prefs : Prefs) (input : ConversationPrefPatch) : Prefs :=
  prefs.put (patchedPref input (prefs.get? input.toPrefKey))

/-- A pref that is not hidden has no reason. -/
def toPref (row : ConversationPref) : ConversationPref :=
  { row with hiddenReason := if row.hidden then row.hiddenReason else none }

/-! ## Patches of an ingest -/

structure SurfaceThread where
  threadId : String
  pref : Option ConversationPref
  onDesk : Bool
  deriving DecidableEq, Repr

/-- An accepted event with its disposition. -/
structure SurfaceEvent where
  event : EventRecord
  disposition : Option MessageDisposition
  deriving DecidableEq, Repr

def SurfaceEvent.threadId (item : SurfaceEvent) : String :=
  conversationId item.event.source item.event.externalId item.event.id

/-- The disposition that was read last for an event. -/
def dispositionOf (events : List SurfaceEvent) (eventId : String) : Option MessageDisposition :=
  (events.reverse.find? (·.event.id = eventId)).bind (·.disposition)

def prefFold (pref : Option ConversationPref) : Fold :=
  ⟨pref.any (·.hidden), pref.bind (·.hiddenReason)⟩

def surfaceInput (events : List SurfaceEvent) (thread : SurfaceThread) : SurfaceInput :=
  let own := events.filter (·.threadId = thread.threadId)
  { toFold := prefFold thread.pref
    onDesk := thread.onDesk
    acceptedCurrentWork := own.any fun item =>
      dispositionOf events item.event.id = some .currentWork
    acceptedTombstone := own.any (·.event.operation = .tombstone) }

/-- The patch of one thread, unless the pref says the same already. -/
def surfacePatch (orgId now : String) (events : List SurfaceEvent) (thread : SurfaceThread) :
    Option ConversationPrefPatch :=
  (nextHiddenPref (surfaceInput events thread)).bind fun next =>
    let nextReason := if next.hidden then next.reason else none
    if thread.pref.map (·.hidden) = some next.hidden ∧
        effectiveHiddenReason (prefFold thread.pref) = nextReason then none
    else some
      { orgId
        threadId := thread.threadId
        hidden := some next.hidden
        hiddenReason := some nextReason
        updatedAt := now }

def listSurfacePatches (orgId now : String) (events : List SurfaceEvent)
    (threads : List SurfaceThread) : List ConversationPrefPatch :=
  threads.filterMap (surfacePatch orgId now events)

end Regenic.Inbox
