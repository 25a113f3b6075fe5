import Regenic.Lib.Run
import Regenic.Sync.Contracts

/-!
The process-wide slot pool: lanes with reserved slots, the waiters that no slot could be given,
and how a release gives its slot on. What is in use and what is still reserved for a lane fit in
the total at all times, so a lane that has not used up its reservation never waits.
-/

namespace Regenic.Sync

open Lib

def syncLanes : List SyncLane := [.interactive, .live, .catalog, .history, .media]

/-! ## Pool -/

structure SyncSlotPoolOptions where
  total : Nat
  reserved : SyncLane → Option Int := fun _ => none

/-- A waiter, with the promise that it waits for. -/
structure SlotWaiter where
  lane : SyncLane
  ticket : Nat
  deriving DecidableEq, Repr

/-- A lane that is not in the map counts none. -/
structure SyncSlotPool where
  options : SyncSlotPoolOptions
  active : Nat
  byLane : SyncLane → Nat
  waiters : List SlotWaiter

def newSyncSlotPool (options : SyncSlotPoolOptions) : Except String SyncSlotPool :=
  if options.total < 1 then .error "SyncSlotPool total must be a positive integer"
  else .ok { options, active := 0, byLane := fun _ => 0, waiters := [] }

namespace SyncSlotPool

def reservedFor (pool : SyncSlotPool) (lane : SyncLane) : Nat :=
  (max 0 ((pool.options.reserved lane).getD 0)).toNat

/-- The unused reservation of a lane. -/
def unusedFor (pool : SyncSlotPool) (lane : SyncLane) : Nat :=
  pool.reservedFor lane - pool.byLane lane

def protectedOthers (pool : SyncSlotPool) (lane : SyncLane) : Nat :=
  ((syncLanes.filter fun other => other ≠ lane).map pool.unusedFor).sum

def canAcquire (pool : SyncSlotPool) (lane : SyncLane) : Bool :=
  if pool.options.total ≤ pool.active then false
  else pool.active + pool.protectedOthers lane < pool.options.total

/-- What `tryAcquire` does where the slot is free. -/
def grant (pool : SyncSlotPool) (lane : SyncLane) : SyncSlotPool :=
  { pool with
    active := pool.active + 1
    byLane := fun other => if other = lane then pool.byLane lane + 1 else pool.byLane other }

def tryAcquire (pool : SyncSlotPool) (lane : SyncLane) : SyncSlotPool × Bool :=
  if pool.canAcquire lane then (pool.grant lane, true) else (pool, false)

/-- `acquire`, up to where it waits. -/
def acquire (pool : SyncSlotPool) (waiter : SlotWaiter) : SyncSlotPool × Bool :=
  if pool.canAcquire waiter.lane then (pool.grant waiter.lane, true)
  else ({ pool with waiters := pool.waiters ++ [waiter] }, false)

/-- The pass over the waiters: those that stay, the pool, and those that are given a slot. -/
def flushWaiters (pool : SyncSlotPool) : List SlotWaiter →
    List SlotWaiter × SyncSlotPool × List SlotWaiter
  | [] => ([], pool, [])
  | waiter :: rest =>
    if pool.canAcquire waiter.lane then
      let (left, after, served) := flushWaiters (pool.grant waiter.lane) rest
      (left, after, waiter :: served)
    else
      let (left, after, served) := flushWaiters pool rest
      (waiter :: left, after, served)

/-- The counts after a release; a count of one or less is deleted. -/
def giveBack (pool : SyncSlotPool) (lane : SyncLane) : SyncSlotPool :=
  { pool with
    active := pool.active - 1
    byLane := fun other => if other = lane then pool.byLane lane - 1 else pool.byLane other }

def release (pool : SyncSlotPool) (lane : SyncLane) : SyncSlotPool × List SlotWaiter :=
  let (left, after, served) := flushWaiters (pool.giveBack lane) pool.waiters
  ({ after with waiters := left }, served)

end SyncSlotPool

/-! ## Runs -/

inductive SlotOp where
  | tryAcquire (lane : SyncLane)
  | acquire (waiter : SlotWaiter)
  | release (lane : SyncLane)
  deriving DecidableEq, Repr

/-- A pool with its history: the lanes that slots were granted to and released from, the waiters
in the order in which they queued, and in the order in which they were served. -/
structure SlotRun where
  pool : SyncSlotPool
  granted : List SyncLane
  released : List SyncLane
  queued : List SlotWaiter
  served : List SlotWaiter

def SlotRun.start (pool : SyncSlotPool) : SlotRun := ⟨pool, [], [], [], []⟩

/-- The slots of a lane that were granted and not released. -/
def SlotRun.holding (s : SlotRun) (lane : SyncLane) : Nat :=
  s.granted.count lane - s.released.count lane

def SlotRun.step (s : SlotRun) : SlotOp → SlotRun
  | .tryAcquire lane =>
    let (pool, taken) := s.pool.tryAcquire lane
    { s with pool, granted := if taken then s.granted ++ [lane] else s.granted }
  | .acquire waiter =>
    let (pool, taken) := s.pool.acquire waiter
    { s with
      pool
      granted := if taken then s.granted ++ [waiter.lane] else s.granted
      queued := if taken then s.queued else s.queued ++ [waiter] }
  | .release lane =>
    let (pool, served) := s.pool.release lane
    { s with
      pool
      granted := s.granted ++ served.map (·.lane)
      released := s.released ++ [lane]
      served := s.served ++ served }

/-- A release matches an earlier grant of the same lane. -/
def ReleasesHeld (s : SlotRun) : SlotOp → Prop
  | .release lane => 0 < s.holding lane
  | _ => True

/-- What is promised of the pool. -/
structure SlotsKept (s : SlotRun) : Prop where
  active : s.pool.active = (syncLanes.map s.holding).sum
  within : s.pool.active ≤ s.pool.options.total
  reserved : ∀ lane, s.holding lane < s.pool.reservedFor lane → s.pool.canAcquire lane = true
  noneForgotten : ∀ waiter ∈ s.pool.waiters, s.pool.canAcquire waiter.lane = false
  inOrder : ∀ lane, (s.served ++ s.pool.waiters).filter (fun waiter => waiter.lane = lane) =
    s.queued.filter fun waiter => waiter.lane = lane

/-! ## Slots -/

namespace SyncSlotPool

variable {pool : SyncSlotPool} {lane : SyncLane}

/-- A sum over the lanes, one of them apart. -/
theorem sum_lanes (f : SyncLane → Nat) (lane : SyncLane) :
    (syncLanes.map f).sum =
      f lane + ((syncLanes.filter fun other => other ≠ lane).map f).sum := by
  cases lane <;> simp [syncLanes] <;> omega

theorem sum_others {f g : SyncLane → Nat} {lane : SyncLane}
    (h : ∀ other, other ≠ lane → f other = g other) :
    ((syncLanes.filter fun other => other ≠ lane).map f).sum =
      ((syncLanes.filter fun other => other ≠ lane).map g).sum := by
  congr 1
  apply List.map_congr_left
  intro other hother
  exact h other (of_decide_eq_true (List.mem_filter.mp hother).2)

/-- What is in use and what is still reserved fit in the total. -/
def Fits (pool : SyncSlotPool) : Prop :=
  pool.active + (syncLanes.map pool.unusedFor).sum ≤ pool.options.total

theorem canAcquire_iff : pool.canAcquire lane = true ↔
    pool.active + pool.protectedOthers lane < pool.options.total := by
  unfold canAcquire
  by_cases hfull : pool.options.total ≤ pool.active
  · rw [if_pos hfull]
    constructor
    · intro h
      cases h
    · intro h
      omega
  · rw [if_neg hfull, decide_eq_true_eq]

theorem unusedFor_grant_of_ne {other : SyncLane} (hne : other ≠ lane) :
    (pool.grant lane).unusedFor other = pool.unusedFor other := by
  unfold unusedFor grant
  dsimp only
  rw [if_neg hne]
  rfl

theorem unusedFor_grant_self :
    (pool.grant lane).unusedFor lane = pool.unusedFor lane - 1 := by
  unfold unusedFor grant
  dsimp only
  rw [if_pos rfl]
  exact (Nat.sub_sub _ _ _).symm

theorem Fits.grant (h : pool.canAcquire lane = true) (hfits : pool.Fits) :
    (pool.grant lane).Fits := by
  have hothers := @sum_others (pool.grant lane).unusedFor pool.unusedFor lane
    fun _ hne => unusedFor_grant_of_ne hne
  have hself := @unusedFor_grant_self pool lane
  have hfree := canAcquire_iff.mp h
  unfold Fits protectedOthers at *
  rw [sum_lanes _ lane] at hfits ⊢
  rw [hothers, hself]
  show pool.active + 1 + _ ≤ pool.options.total
  omega

/-- A grant makes no lane able to acquire that was not. -/
theorem canAcquire_grant {other : SyncLane} (h : pool.canAcquire other = false) :
    (pool.grant lane).canAcquire other = false := by
  rw [Bool.eq_false_iff, ne_eq, canAcquire_iff] at *
  intro hafter
  apply h
  have hactive : (pool.grant lane).active = pool.active + 1 := rfl
  have htotal : (pool.grant lane).options.total = pool.options.total := rfl
  unfold protectedOthers at *
  by_cases hsame : other = lane
  · have hothers := @sum_others (pool.grant lane).unusedFor pool.unusedFor other
      fun _ hne => unusedFor_grant_of_ne (hsame ▸ hne)
    omega
  · have hself := @unusedFor_grant_self pool lane
    have hall := sum_lanes pool.unusedFor lane
    have hall' := sum_lanes (pool.grant lane).unusedFor lane
    have hothers := @sum_others (pool.grant lane).unusedFor pool.unusedFor lane
      fun _ hne => unusedFor_grant_of_ne hne
    have hone := sum_lanes pool.unusedFor other
    have hone' := sum_lanes (pool.grant lane).unusedFor other
    have hother : (pool.grant lane).unusedFor other = pool.unusedFor other :=
      unusedFor_grant_of_ne hsame
    omega

/-- A lane that has not used up its reservation can acquire. -/
theorem Fits.canAcquire (hfits : pool.Fits) (h : pool.byLane lane < pool.reservedFor lane) :
    pool.canAcquire lane = true := by
  rw [canAcquire_iff]
  unfold Fits at hfits
  rw [sum_lanes _ lane] at hfits
  have hunused : 0 < pool.unusedFor lane := Nat.sub_pos_of_lt h
  unfold protectedOthers
  omega

theorem unusedFor_giveBack_of_ne {other : SyncLane} (hne : other ≠ lane) :
    (pool.giveBack lane).unusedFor other = pool.unusedFor other := by
  unfold unusedFor giveBack
  dsimp only
  rw [if_neg hne]
  rfl

theorem unusedFor_giveBack_le :
    (pool.giveBack lane).unusedFor lane ≤ pool.unusedFor lane + 1 := by
  have hcount : (pool.giveBack lane).byLane lane = pool.byLane lane - 1 := if_pos rfl
  have hreserved : (pool.giveBack lane).reservedFor lane = pool.reservedFor lane := rfl
  unfold unusedFor
  omega

theorem Fits.giveBack (hfits : pool.Fits) (hactive : 0 < pool.active) :
    (pool.giveBack lane).Fits := by
  have hothers := @sum_others (pool.giveBack lane).unusedFor pool.unusedFor lane
    fun _ hne => unusedFor_giveBack_of_ne hne
  have hself := @unusedFor_giveBack_le pool lane
  unfold Fits at *
  rw [sum_lanes _ lane] at hfits ⊢
  rw [hothers]
  show pool.active - 1 + _ ≤ pool.options.total
  omega

/-! ### Waiters -/

/-- The slots of a pool as counted lane by lane. -/
def Counts (pool : SyncSlotPool) (held : SyncLane → Nat) : Prop :=
  pool.byLane = held ∧ pool.active = (syncLanes.map held).sum

theorem Counts.grant {held : SyncLane → Nat} (h : pool.Counts held) :
    (pool.grant lane).Counts fun other => held other + if other = lane then 1 else 0 := by
  obtain ⟨hbyLane, hactive⟩ := h
  constructor
  · funext other
    unfold SyncSlotPool.grant
    dsimp only
    by_cases hsame : other = lane
    · rw [if_pos hsame, if_pos hsame, hbyLane, hsame]
    · rw [if_neg hsame, if_neg hsame, hbyLane, Nat.add_zero]
  · show pool.active + 1 = _
    rw [hactive, sum_lanes _ lane, sum_lanes (fun other => held other + _) lane, if_pos rfl]
    have hothers := @sum_others (fun other => held other + if other = lane then 1 else 0) held lane
      fun other hne => by rw [if_neg hne, Nat.add_zero]
    omega

theorem Counts.giveBack {held : SyncLane → Nat} (h : pool.Counts held) (hheld : 0 < held lane) :
    (pool.giveBack lane).Counts fun other => held other - if other = lane then 1 else 0 := by
  obtain ⟨hbyLane, hactive⟩ := h
  constructor
  · funext other
    unfold SyncSlotPool.giveBack
    dsimp only
    by_cases hsame : other = lane
    · rw [if_pos hsame, if_pos hsame, hbyLane, hsame]
    · rw [if_neg hsame, if_neg hsame, hbyLane, Nat.sub_zero]
  · show pool.active - 1 = _
    rw [hactive, sum_lanes _ lane, sum_lanes (fun other => held other - _) lane, if_pos rfl]
    have hothers := @sum_others (fun other => held other - if other = lane then 1 else 0) held lane
      fun other hne => by rw [if_neg hne, Nat.sub_zero]
    omega

/-- What the pass over the waiters leaves. -/
structure Flushed (pool : SyncSlotPool) (waiters : List SlotWaiter)
    (result : List SlotWaiter × SyncSlotPool × List SlotWaiter) : Prop where
  options : result.2.1.options = pool.options
  fits : pool.Fits → result.2.1.Fits
  counts : ∀ held, pool.Counts held → result.2.1.Counts fun lane =>
    held lane + (result.2.2.map (·.lane)).count lane
  blocked : ∀ lane, pool.canAcquire lane = false → result.2.1.canAcquire lane = false
  noneForgotten : ∀ waiter ∈ result.1, result.2.1.canAcquire waiter.lane = false
  inOrder : ∀ lane, (result.2.2 ++ result.1).filter (fun waiter => waiter.lane = lane) =
    waiters.filter fun waiter => waiter.lane = lane

theorem flushWaiters_nil : Flushed pool [] (flushWaiters pool []) where
  options := rfl
  fits := id
  counts := fun _ h => h
  blocked := fun _ h => h
  noneForgotten := fun _ h => absurd h List.not_mem_nil
  inOrder := fun _ => rfl

theorem flushWaiters_granted {waiter : SlotWaiter} {rest : List SlotWaiter}
    (h : pool.canAcquire waiter.lane = true)
    (hrest : Flushed (pool.grant waiter.lane) rest (flushWaiters (pool.grant waiter.lane) rest)) :
    Flushed pool (waiter :: rest) (flushWaiters pool (waiter :: rest)) := by
  unfold flushWaiters
  rw [if_pos h]
  constructor
  · exact hrest.options
  · exact fun hfits => hrest.fits (hfits.grant h)
  · intro held hcounts
    have hafter := hrest.counts _ hcounts.grant
    have hsame : (fun lane => held lane + (if lane = waiter.lane then 1 else 0) +
        ((flushWaiters (pool.grant waiter.lane) rest).2.2.map (·.lane)).count lane) =
        fun lane => held lane + ((waiter ::
          (flushWaiters (pool.grant waiter.lane) rest).2.2).map (·.lane)).count lane := by
      funext lane
      rw [List.map_cons, List.count_cons]
      by_cases hlane : lane = waiter.lane
      · simp [hlane]
        omega
      · have hne : ¬waiter.lane = lane := fun hsame => hlane hsame.symm
        simp [hlane, hne]
    rw [hsame] at hafter
    exact hafter
  · exact fun lane hlane => hrest.blocked lane (canAcquire_grant hlane)
  · exact hrest.noneForgotten
  · intro lane
    rw [List.cons_append, List.filter_cons, List.filter_cons, hrest.inOrder lane]

/-- A lane that cannot acquire keeps all its waiters. -/
theorem flushWaiters_blocked {waiters : List SlotWaiter} {lane : SyncLane}
    (h : pool.canAcquire lane = false) :
    (flushWaiters pool waiters).2.2.filter (fun waiter => waiter.lane = lane) = [] := by
  induction waiters generalizing pool with
  | nil => rfl
  | cons waiter rest ih =>
    unfold flushWaiters
    by_cases hgrant : pool.canAcquire waiter.lane = true
    · rw [if_pos hgrant]
      dsimp only
      have hne : ¬waiter.lane = lane := by
        intro hsame
        rw [hsame, h] at hgrant
        cases hgrant
      rw [List.filter_cons_of_neg (by simpa using hne)]
      exact ih (canAcquire_grant h)
    · rw [if_neg hgrant]
      exact ih h

theorem flushWaiters_skipped {waiter : SlotWaiter} {rest : List SlotWaiter}
    (h : pool.canAcquire waiter.lane = false)
    (hrest : Flushed pool rest (flushWaiters pool rest)) :
    Flushed pool (waiter :: rest) (flushWaiters pool (waiter :: rest)) := by
  have hblocked := hrest.blocked waiter.lane h
  have hnone := @flushWaiters_blocked pool rest waiter.lane h
  unfold flushWaiters
  rw [if_neg (Bool.eq_false_iff.mp h)]
  constructor
  · exact hrest.options
  · exact hrest.fits
  · exact hrest.counts
  · exact hrest.blocked
  · intro other hother
    rcases List.mem_cons.mp hother with rfl | hmem
    · exact hblocked
    · exact hrest.noneForgotten other hmem
  · intro lane
    have horder := hrest.inOrder lane
    dsimp only
    rw [List.filter_append] at horder ⊢
    by_cases hlane : waiter.lane = lane
    · -- No one of the lane is served in this pass, so its first waiter stays the first.
      subst hlane
      rw [hnone, List.nil_append] at horder ⊢
      rw [List.filter_cons, List.filter_cons, horder]
    · rw [List.filter_cons_of_neg (by simpa using hlane),
        List.filter_cons_of_neg (by simpa using hlane)]
      exact horder

theorem flushWaiters_flushed (waiters : List SlotWaiter) :
    Flushed pool waiters (flushWaiters pool waiters) := by
  induction waiters generalizing pool with
  | nil => exact flushWaiters_nil
  | cons waiter rest ih =>
    cases h : pool.canAcquire waiter.lane with
    | true => exact flushWaiters_granted h ih
    | false => exact flushWaiters_skipped h ih

end SyncSlotPool

/-! ## Every run -/

/-- What every operation keeps. -/
structure SlotInvariant (s : SlotRun) : Prop where
  fits : s.pool.Fits
  counts : s.pool.Counts s.holding
  released : ∀ lane, s.released.count lane ≤ s.granted.count lane
  noneForgotten : ∀ waiter ∈ s.pool.waiters, s.pool.canAcquire waiter.lane = false
  inOrder : ∀ lane, (s.served ++ s.pool.waiters).filter (fun waiter => waiter.lane = lane) =
    s.queued.filter fun waiter => waiter.lane = lane

variable {s : SlotRun} {lane : SyncLane}

theorem SlotInvariant.kept (h : SlotInvariant s) : SlotsKept s where
  active := h.counts.2
  within := Nat.le_trans (Nat.le_add_right _ _) h.fits
  reserved := by
    intro lane hlane
    apply h.fits.canAcquire
    rw [h.counts.1]
    exact hlane
  noneForgotten := h.noneForgotten
  inOrder := h.inOrder

/-- One more slot granted to a lane. -/
theorem SlotInvariant.grant (h : SlotInvariant s) (hfree : s.pool.canAcquire lane = true) :
    SlotInvariant { s with pool := s.pool.grant lane, granted := s.granted ++ [lane] } where
  fits := h.fits.grant hfree
  counts := by
    have hcounts := @SyncSlotPool.Counts.grant _ lane _ h.counts
    have hholding : SlotRun.holding
        { s with pool := s.pool.grant lane, granted := s.granted ++ [lane] } =
        fun other => s.holding other + if other = lane then 1 else 0 := by
      funext other
      have hle := h.released other
      unfold SlotRun.holding
      rw [List.count_append, List.count_singleton]
      by_cases hsame : lane = other
      · simp [hsame]
        omega
      · have hne : ¬other = lane := fun hother => hsame hother.symm
        simp [hsame, hne]
    rw [hholding]
    exact hcounts
  released := by
    intro other
    rw [List.count_append]
    exact Nat.le_trans (h.released other) (Nat.le_add_right _ _)
  noneForgotten := fun waiter hwaiter =>
    SyncSlotPool.canAcquire_grant (h.noneForgotten waiter hwaiter)
  inOrder := h.inOrder

theorem step_tryAcquire : s.step (.tryAcquire lane) =
    if s.pool.canAcquire lane then
      { s with pool := s.pool.grant lane, granted := s.granted ++ [lane] }
    else s := by
  by_cases hfree : s.pool.canAcquire lane = true
  · simp only [SlotRun.step, SyncSlotPool.tryAcquire, if_pos hfree, if_true]
  · simp only [SlotRun.step, SyncSlotPool.tryAcquire, if_neg hfree, Bool.false_eq_true, if_false]

theorem step_acquire {waiter : SlotWaiter} : s.step (.acquire waiter) =
    if s.pool.canAcquire waiter.lane then
      { s with pool := s.pool.grant waiter.lane, granted := s.granted ++ [waiter.lane] }
    else
      { s with
        pool := { s.pool with waiters := s.pool.waiters ++ [waiter] }
        queued := s.queued ++ [waiter] } := by
  by_cases hfree : s.pool.canAcquire waiter.lane = true
  · simp only [SlotRun.step, SyncSlotPool.acquire, if_pos hfree, if_true]
  · simp only [SlotRun.step, SyncSlotPool.acquire, if_neg hfree, Bool.false_eq_true, if_false]

theorem SlotInvariant.tryAcquire (h : SlotInvariant s) :
    SlotInvariant (s.step (.tryAcquire lane)) := by
  rw [step_tryAcquire]
  split
  · next hfree => exact h.grant hfree
  · exact h

theorem SlotInvariant.acquire {waiter : SlotWaiter} (h : SlotInvariant s) :
    SlotInvariant (s.step (.acquire waiter)) := by
  rw [step_acquire]
  split
  · next hfree => exact h.grant hfree
  · next hfree =>
    have hfree : s.pool.canAcquire waiter.lane = false := Bool.eq_false_iff.mpr hfree
    refine ⟨h.fits, h.counts, h.released, ?_, ?_⟩
    · intro other hother
      rcases List.mem_append.mp hother with hold | hnew
      · exact h.noneForgotten other hold
      · rw [List.mem_singleton.mp hnew]
        exact hfree
    · intro lane
      show (s.served ++ (s.pool.waiters ++ [waiter])).filter (fun waiter => waiter.lane = lane) =
        (s.queued ++ [waiter]).filter fun waiter => waiter.lane = lane
      rw [← List.append_assoc, List.filter_append, h.inOrder lane, List.filter_append]

theorem step_release : s.step (.release lane) =
    { s with
      pool := { ((s.pool.giveBack lane).flushWaiters s.pool.waiters).2.1 with
        waiters := ((s.pool.giveBack lane).flushWaiters s.pool.waiters).1 }
      granted := s.granted ++
        (((s.pool.giveBack lane).flushWaiters s.pool.waiters).2.2).map (·.lane)
      released := s.released ++ [lane]
      served := s.served ++ ((s.pool.giveBack lane).flushWaiters s.pool.waiters).2.2 } := rfl

theorem SlotInvariant.release (h : SlotInvariant s) (hheld : 0 < s.holding lane) :
    SlotInvariant (s.step (.release lane)) := by
  have hactive : 0 < s.pool.active := by
    rw [h.counts.2, SyncSlotPool.sum_lanes _ lane]
    omega
  have hflushed := @SyncSlotPool.flushWaiters_flushed (s.pool.giveBack lane) s.pool.waiters
  have hcounts := hflushed.counts _ (h.counts.giveBack hheld)
  rw [step_release]
  generalize (s.pool.giveBack lane).flushWaiters s.pool.waiters = result at hflushed hcounts ⊢
  obtain ⟨left, after, served⟩ := result
  constructor
  · exact hflushed.fits (h.fits.giveBack hactive)
  · have hholding : SlotRun.holding { s with
        pool := { after with waiters := left }
        granted := s.granted ++ served.map (·.lane)
        released := s.released ++ [lane]
        served := s.served ++ served } =
        fun other => s.holding other - (if other = lane then 1 else 0) +
          (served.map (·.lane)).count other := by
      funext other
      have hle := h.released other
      unfold SlotRun.holding at hheld ⊢
      dsimp only
      rw [List.count_append, List.count_append, List.count_singleton]
      by_cases hsame : lane = other
      · subst hsame
        simp
        omega
      · have hne : ¬other = lane := fun hother => hsame hother.symm
        simp [hsame, hne]
        omega
    rw [hholding]
    exact hcounts
  · intro other
    have hle := h.released other
    unfold SlotRun.holding at hheld
    dsimp only
    rw [List.count_append, List.count_append, List.count_singleton]
    by_cases hsame : lane = other
    · subst hsame
      simp
      omega
    · simp [hsame]
      omega
  · exact hflushed.noneForgotten
  · intro lane
    have horder := hflushed.inOrder lane
    dsimp only at horder ⊢
    rw [List.append_assoc, List.filter_append, horder, ← List.filter_append, h.inOrder lane]

theorem SlotInvariant.step {op : SlotOp} (h : SlotInvariant s) (hmatch : ReleasesHeld s op) :
    SlotInvariant (s.step op) := by
  cases op with
  | tryAcquire lane => exact h.tryAcquire
  | acquire waiter => exact h.acquire
  | release lane => exact h.release hmatch

theorem SlotInvariant.start {options : SyncSlotPoolOptions} {pool : SyncSlotPool}
    (hnew : newSyncSlotPool options = .ok pool)
    (hreserved : (syncLanes.map pool.reservedFor).sum ≤ pool.options.total) :
    SlotInvariant (SlotRun.start pool) := by
  unfold newSyncSlotPool at hnew
  split at hnew
  · cases hnew
  · obtain rfl := Except.ok.inj hnew
    refine ⟨?_, ⟨rfl, rfl⟩, fun _ => Nat.le_refl 0, ?_, fun _ => rfl⟩
    · show 0 + _ ≤ _
      rw [Nat.zero_add]
      exact hreserved
    · intro waiter hwaiter
      cases hwaiter

/-- In every run of a pool whose reservations fit in its total and whose releases match grants:
the slots in use are those that the lanes hold, never more than the total; a lane that holds fewer
than are reserved for it can acquire at once; no waiter that could be granted is left waiting, and
the waiters of a lane are served in the order in which they came. -/
theorem reserved_slots_are_kept {options : SyncSlotPoolOptions} {pool : SyncSlotPool}
    (hnew : newSyncSlotPool options = .ok pool)
    (hreserved : (syncLanes.map pool.reservedFor).sum ≤ pool.options.total) (ops : List SlotOp)
    (hmatch : Along SlotRun.step ReleasesHeld (SlotRun.start pool) ops) :
    SlotsKept (run SlotRun.step (SlotRun.start pool) ops) :=
  (along_invariant SlotRun.step SlotInvariant (fun _ _ h hok => h.step hok) _
    (SlotInvariant.start hnew hreserved) ops hmatch).kept

/-! ### One reserved slot of two -/

def twoSlots : SyncSlotPoolOptions where
  total := 2
  reserved := fun lane => if lane = .interactive then some 1 else none

def twoSlotPool : SyncSlotPool where
  options := twoSlots
  active := 0
  byLane := fun _ => 0
  waiters := []

/-- History waits for the one slot that is not reserved, until live gives it back. -/
def historyWaits : List SlotOp :=
  [.tryAcquire .live, .acquire ⟨.history, 1⟩, .release .live]

theorem reserved_slots_are_kept_history :
    (run SlotRun.step (SlotRun.start twoSlotPool) historyWaits).served = [⟨.history, 1⟩] ∧
      SlotsKept (run SlotRun.step (SlotRun.start twoSlotPool) historyWaits) := by
  refine ⟨by decide +kernel, ?_⟩
  have hmatch : Along SlotRun.step ReleasesHeld (SlotRun.start twoSlotPool) historyWaits := by
    refine ⟨trivial, trivial, ?_, trivial⟩
    show 0 < SlotRun.holding _ _
    decide +kernel
  have hnew : newSyncSlotPool twoSlots = .ok twoSlotPool := rfl
  exact reserved_slots_are_kept hnew (by decide +kernel) historyWaits hmatch

end Regenic.Sync
