import Regenic.Sync.Contracts

/-!
What a phase write should add to or drop from the work rows of its stream.
-/

namespace Regenic.Sync

open Lib

def laneBlocksEnqueue (existing : List SyncWorkRecord) (lane : SyncLane) : Bool :=
  existing.any fun item =>
    if lane = .live ∧ item.lane = .interactive then item.isOpen
    else if item.lane ≠ lane then false
    else item.assigned || item.isOpen

@[ext]
structure SyncWorkPlan where
  enqueue : List SyncLane
  cancel : List SyncLane
  deriving DecidableEq, Repr

/-- `preferred` is absent in the stores' own phase writes; `some false` drops a
leftover interactive row. -/
def syncWorkEnsurePlan (phase : SyncPhase) (mediaPending : Bool)
    (existing : List SyncWorkRecord) (policy : HistoryPolicy)
    (preferred : Option Bool := none) : SyncWorkPlan :=
  let owed := owedSyncLanes phase mediaPending policy
  let pending (lane : SyncLane) : Bool := existing.any fun item =>
    !item.assigned && item.lane = lane && item.status = .pending
  let released : List SyncLane :=
    if preferred = some false ∧ pending .interactive then [.interactive] else []
  let blocking :=
    if preferred = some false then existing.filter (fun item => item.lane ≠ .interactive)
    else existing
  let history : List SyncLane :=
    if SyncLane.history ∉ owed ∧ pending .history then [.history] else []
  let live : List SyncLane :=
    if SyncLane.live ∈ owed then []
    else
      (if pending .live then [.live] else []) ++
        (if pending .interactive ∧ SyncLane.interactive ∉ released then [.interactive] else [])
  let media : List SyncLane :=
    if SyncLane.media ∉ owed ∧ pending .media then [.media] else []
  { enqueue := owed.filter fun lane => !laneBlocksEnqueue blocking lane
    cancel := released ++ history ++ live ++ media }

/-- A lane is enqueued only when its rows are closed and belong to no run. -/
theorem laneBlocksEnqueue_eq_false {existing : List SyncWorkRecord} {lane : SyncLane}
    (h : laneBlocksEnqueue existing lane = false) {item : SyncWorkRecord}
    (hitem : item ∈ existing) (hlane : item.lane = lane) :
    item.assigned = false ∧ item.isOpen = false := by
  have hfree := List.any_eq_false.mp h item hitem
  have hother : ¬ (lane = .live ∧ item.lane = .interactive) := by
    rintro ⟨hlive, hinteractive⟩
    rw [hlane, hlive] at hinteractive
    cases hinteractive
  rw [if_neg hother, if_neg (by simp [hlane])] at hfree
  simpa using hfree

theorem mem_syncWorkEnsurePlan_enqueue {phase : SyncPhase} {mediaPending : Bool}
    {existing : List SyncWorkRecord} {policy : HistoryPolicy} {lane : SyncLane} :
    lane ∈ (syncWorkEnsurePlan phase mediaPending existing policy).enqueue ↔
      lane ∈ owedSyncLanes phase mediaPending policy ∧
        laneBlocksEnqueue existing lane = false := by
  simp [syncWorkEnsurePlan, List.mem_filter]

end Regenic.Sync
