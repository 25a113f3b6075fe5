import Regenic.Sync.Contracts

/-!
The books of one sync run, apart from any store: its status and counters, how many
of its rows are open, whether one of them is running, and whether work was ever
enqueued for it. The moves are what enqueues, claims, settlements and commands may
do to the books; each of them keeps the books balanced.
-/

namespace Regenic.Sync

/-- A run that can still take work: queued, running or paused. -/
def SyncRunStatus.isActive : SyncRunStatus → Bool
  | .queued | .running | .paused => true
  | .succeeded | .failed | .cancelled => false

theorem isActive_of_claimable {status : SyncRunStatus}
    (h : syncRunIsClaimable status = true) : status.isActive = true := by
  cases status <;> simp_all [syncRunIsClaimable, SyncRunStatus.isActive]

structure RunLedger where
  status : SyncRunStatus
  total : Nat
  completed : Nat
  failed : Nat
  openRows : Nat
  busy : Prop
  enqueued : Prop

namespace RunLedger

def settled (l : RunLedger) : Nat := l.completed + l.failed

structure Balanced (l : RunLedger) : Prop where
  counted : l.settled ≤ l.total
  owed : l.status.isActive = true → l.settled + l.openRows ≤ l.total
  live : l.busy → l.status.isActive = true
  unstuck : syncRunIsClaimable l.status = true → l.enqueued → 0 < l.openRows

/-- One store call as a run sees it in its books. -/
inductive Move (l l' : RunLedger) : Prop
  | keep (status : l'.status = l.status) (total : l'.total = l.total)
      (settled : l'.settled = l.settled) (openRows : l'.openRows = l.openRows)
      (busy : l'.busy → l.busy) (enqueued : l'.enqueued → l.enqueued)
  | enqueue (status : l'.status = l.status) (total : l.total ≤ l'.total)
      (settled : l'.settled = l.settled) (busy : l'.busy → l.busy)
      (room : l.status.isActive = true → l'.settled + l'.openRows ≤ l'.total)
      (left : syncRunIsClaimable l.status = true → l'.enqueued → 0 < l'.openRows)
  | claim (status : l'.status = l.status ∨
        (syncRunIsClaimable l.status = true ∧ l'.status = .running))
      (total : l'.total = l.total) (settled : l'.settled = l.settled)
      (openRows : l'.openRows = l.openRows)
      (busy : l'.busy → l.busy ∨ syncRunIsClaimable l.status = true)
      (enqueued : l'.enqueued → l.enqueued)
  | settle (active : l.status.isActive = true) (total : l'.total = l.total)
      (moved : l'.settled + l'.openRows ≤ l.settled + l.openRows)
      (busy : l'.busy → l'.status.isActive = true)
      (left : syncRunIsClaimable l'.status = true → 0 < l'.openRows)
  | pause (claimable : syncRunIsClaimable l.status = true) (status : l'.status = .paused)
      (total : l'.total = l.total) (settled : l'.settled = l.settled)
      (openRows : l'.openRows = l.openRows)
  | resume (paused : l.status = .paused) (status : l'.status = .queued)
      (total : l'.total = l.total) (settled : l'.settled = l.settled)
      (openRows : l'.openRows = l.openRows)
      (left : l'.enqueued → 0 < l'.openRows)
  | cancel (status : l'.status = .cancelled) (total : l'.total = l.total)
      (settled : l'.settled = l.settled) (idle : ¬ l'.busy)

theorem Balanced.move {l l' : RunLedger} (h : l.Balanced) (m : Move l l') : l'.Balanced := by
  cases m with
  | keep status total settled openRows busy enqueued =>
    refine ⟨?_, ?_, ?_, ?_⟩
    · rw [settled, total]
      exact h.counted
    · intro active
      rw [settled, openRows, total]
      exact h.owed (status ▸ active)
    · intro hbusy
      rw [status]
      exact h.live (busy hbusy)
    · intro claimable henqueued
      rw [openRows]
      exact h.unstuck (status ▸ claimable) (enqueued henqueued)
  | enqueue status total settled busy room left =>
    refine ⟨?_, ?_, ?_, ?_⟩
    · rw [settled]
      exact Nat.le_trans h.counted total
    · intro active
      exact room (status ▸ active)
    · intro hbusy
      rw [status]
      exact h.live (busy hbusy)
    · intro claimable henqueued
      exact left (status ▸ claimable) henqueued
  | claim status total settled openRows busy enqueued =>
    have hactive : l'.status.isActive = true ↔ l.status.isActive = true := by
      rcases status with hsame | ⟨hclaimable, hrunning⟩
      · rw [hsame]
      · rw [hrunning]
        exact ⟨fun _ => isActive_of_claimable hclaimable, fun _ => rfl⟩
    refine ⟨?_, ?_, ?_, ?_⟩
    · rw [settled, total]
      exact h.counted
    · intro active
      rw [settled, openRows, total]
      exact h.owed (hactive.mp active)
    · intro hbusy
      rcases busy hbusy with hbefore | hclaimable
      · exact hactive.mpr (h.live hbefore)
      · exact hactive.mpr (isActive_of_claimable hclaimable)
    · intro claimable henqueued
      rw [openRows]
      rcases status with hsame | ⟨hclaimable, _⟩
      · exact h.unstuck (hsame ▸ claimable) (enqueued henqueued)
      · exact h.unstuck hclaimable (enqueued henqueued)
  | settle active total moved busy left =>
    have howed := h.owed active
    refine ⟨by omega, fun _ => by omega, busy, ?_⟩
    intro claimable _
    exact left claimable
  | pause claimable status total settled openRows =>
    have howed := h.owed (isActive_of_claimable claimable)
    refine ⟨by omega, fun _ => by omega, ?_, ?_⟩
    · intro _
      rw [status]
      rfl
    · intro hclaimable
      rw [status] at hclaimable
      cases hclaimable
  | resume paused status total settled openRows left =>
    have howed := h.owed (by rw [paused]; rfl)
    refine ⟨by omega, fun _ => by omega, ?_, fun _ => left⟩
    intro _
    rw [status]
    rfl
  | cancel status total settled idle =>
    refine ⟨?_, ?_, fun hbusy => absurd hbusy idle, ?_⟩
    · rw [settled, total]
      exact h.counted
    · intro active
      rw [status] at active
      cases active
    · intro claimable
      rw [status] at claimable
      cases claimable

/-- A new run owes nothing and holds nothing. -/
theorem Balanced.fresh {l : RunLedger} (settled : l.settled = 0) (openRows : l.openRows = 0)
    (idle : ¬ l.busy) (untouched : ¬ l.enqueued) : l.Balanced :=
  ⟨by omega, fun _ => by omega, fun h => absurd h idle, fun _ h => absurd h untouched⟩

end RunLedger

end Regenic.Sync
