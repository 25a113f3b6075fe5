import Regenic.Sync.Contracts

/-!
Directory pages of a connector: which members a page leaves in the catalog, and
which stream keys a completed census drops.
-/

namespace Regenic.Sync

open Lib

/-- `Map.set` on a list of members under their stream key. -/
def setMember (byKey : List SyncCatalogMember) (member : SyncCatalogMember) :
    List SyncCatalogMember :=
  if byKey.any (fun m => m.streamKey = member.streamKey)
  then byKey.map (fun m => if m.streamKey = member.streamKey then member else m)
  else byKey ++ [member]

/-- The member a page writes for `incoming`, over the one it replaces. -/
def catalogMemberFrom (input : ApplySyncCatalogPageInput) (generation : Int)
    (streamKey : String) (incoming : SyncDirectoryMember) (prev : Option SyncCatalogMember) :
    SyncCatalogMember where
  installationId := input.installationId
  streamKey := streamKey
  threadId := incoming.threadId <|> prev.bind (·.threadId)
  label := incoming.label <|> prev.bind (·.label)
  kind := incoming.kind <|> prev.bind (·.kind)
  generation := generation
  discoveredAt := (prev.map (·.discoveredAt)).getD input.now
  lastSeenAt := input.now

def applySyncCatalogMembers (current : SyncCatalogView) (input : ApplySyncCatalogPageInput) :
    SyncCatalogView :=
  let stored := current.catalog.map (·.generation)
  let starting := input.replaces ||
    ((present (current.catalog.bind (·.cursor))).isNone && !input.complete)
  let generation := if starting then stored.getD 0 + 1 else stored.getD 1
  let seeded := current.members.foldl setMember []
  let byKey := input.members.foldl (fun byKey incoming =>
    let streamKey := jsTrim incoming.streamKey
    if streamKey = "" then byKey
    else
      let prev := byKey.find? (fun m => m.streamKey = streamKey)
      setMember byKey (catalogMemberFrom input generation streamKey incoming prev)) seeded
  let members :=
    if input.complete then byKey.filter (fun m => m.generation = generation) else byKey
  { members
    catalog := some {
      installationId := input.installationId
      cursor := if input.complete then none else present input.nextCursor
      complete := input.complete
      generation
      updatedAt := input.now } }

/-- Stream keys a completed directory page removed. -/
def catalogStreamKeysLeft (current next : SyncCatalogView) : List String :=
  ((current.members.map (·.streamKey)).filter fun key =>
    key ≠ "" && key ≠ syncCatalogStream && !next.members.any (·.streamKey = key)).dedup

end Regenic.Sync
