import Mathlib.Data.List.Sort
import Regenic.Lib.Table
import Regenic.Work.Delivery

/-!
The work tables. Every put overwrites the whole row under its key; only the claim of a start
looks at what is stored before it writes.
-/

namespace Regenic.Work

open Lib

structure WorkTables where
  items : Table WorkItem.id := ∅
  runs : Table WorkRun.id := ∅
  /-- One delivery for a work item. -/
  deliveries : Table WorkDelivery.workItemId := ∅
  recipes : Table Recipe.id := ∅

namespace WorkTables

/-- `ORDER BY updated_at DESC, id`. -/
def itemBefore (left right : WorkItem) : Prop :=
  right.updatedAt < left.updatedAt ∨ (left.updatedAt = right.updatedAt ∧ left.id ≤ right.id)

instance (left right : WorkItem) : Decidable (itemBefore left right) :=
  inferInstanceAs (Decidable (_ ∨ _))

def listWorkItems (s : WorkTables) (statuses : List WorkItemStatus) : List WorkItem :=
  (s.items.rows.filter fun item => item.status ∈ statuses).insertionSort itemBefore

def getWorkItem (s : WorkTables) (id : String) : Option WorkItem := s.items.get? id

/-- `ORDER BY` in `getWorkItemByThread`: live work first, then the newest. -/
def itemOnThreadBefore (left right : WorkItem) : Prop :=
  (isActiveWorkStatus left.status = true ∧ isActiveWorkStatus right.status = false) ∨
    (isActiveWorkStatus left.status = isActiveWorkStatus right.status ∧
      (right.createdAt < left.createdAt ∨
        (left.createdAt = right.createdAt ∧ right.id ≤ left.id)))

instance (left right : WorkItem) : Decidable (itemOnThreadBefore left right) :=
  inferInstanceAs (Decidable (_ ∨ _))

def getWorkItemByThread (s : WorkTables) (threadId : String) : Option WorkItem :=
  ((s.items.rows.filter fun item => item.threadId = threadId).insertionSort
    itemOnThreadBefore).head?

def putWorkItem (s : WorkTables) (item : WorkItem) : WorkTables :=
  let createdAt := ((s.items.get? item.id).map (·.createdAt)).getD item.createdAt
  { s with items := s.items.put { item with createdAt } }

/-- `ORDER BY updated_at DESC, id`. -/
def runBefore (left right : WorkRun) : Prop :=
  right.updatedAt < left.updatedAt ∨ (left.updatedAt = right.updatedAt ∧ left.id ≤ right.id)

instance (left right : WorkRun) : Decidable (runBefore left right) :=
  inferInstanceAs (Decidable (_ ∨ _))

def listWorkRuns (s : WorkTables) (workItemId : String) : List WorkRun :=
  (s.runs.rows.filter fun run => run.workItemId = workItemId).insertionSort runBefore

def getWorkRun (s : WorkTables) (id : String) : Option WorkRun := s.runs.get? id

def activeRuns (s : WorkTables) (workItemId : String) : List WorkRun :=
  s.runs.rows.filter fun run => run.workItemId = workItemId ∧ run.status.isActive

/-- `ORDER BY updated_at DESC, id DESC`. -/
def activeRunBefore (left right : WorkRun) : Prop :=
  right.updatedAt < left.updatedAt ∨ (left.updatedAt = right.updatedAt ∧ right.id ≤ left.id)

instance (left right : WorkRun) : Decidable (activeRunBefore left right) :=
  inferInstanceAs (Decidable (_ ∨ _))

def getActiveWorkRun (s : WorkTables) (workItemId : String) : Option WorkRun :=
  ((s.activeRuns workItemId).insertionSort activeRunBefore).head?

/-- The item and the creation time of a run stay what they were. -/
def putWorkRun (s : WorkTables) (run : WorkRun) : WorkTables :=
  let stored := s.runs.get? run.id
  let workItemId := (stored.map (·.workItemId)).getD run.workItemId
  let createdAt := (stored.map (·.createdAt)).getD run.createdAt
  { s with runs := s.runs.put { run with workItemId, createdAt } }

/-- The `SELECT` of the claim: an open item of the recipe without an active run. -/
def startable (s : WorkTables) (run : WorkRun) : Option WorkItem :=
  (s.items.get? run.workItemId).filter fun item =>
    item.recipeId = some run.recipeId ∧ (s.recipes.get? run.recipeId).isSome ∧
      item.status = .opened ∧ s.activeRuns item.id = []

/-- Work items of a recipe that use one of its slots. -/
def occupied (s : WorkTables) (recipeId : String) : Nat :=
  s.items.rows.countP fun item =>
    item.recipeId = some recipeId ∧ isOccupiedRecipeSlot item.status

def setRunning (s : WorkTables) (item : WorkItem) (now : Instant) : WorkTables :=
  { s with items := s.items.put { item with status := .running, updatedAt := now } }

/-- One transaction; none when the run exists already. -/
def claimWorkRunStart (s : WorkTables) (run : WorkRun) (maxConcurrent : Option Nat) :
    Option (Bool × WorkTables) :=
  match s.startable run with
  | none => some (false, s)
  | some item =>
    if maxConcurrent.any (· ≤ s.occupied run.recipeId) then some (false, s)
    else if (s.runs.get? run.id).isSome then none
    else some (true, (s.putWorkRun run).setRunning item run.updatedAt)

/-- `ORDER BY updated_at, id`. -/
def deliveryBefore (left right : WorkDelivery) : Prop :=
  left.updatedAt < right.updatedAt ∨ (left.updatedAt = right.updatedAt ∧ left.id ≤ right.id)

instance (left right : WorkDelivery) : Decidable (deliveryBefore left right) :=
  inferInstanceAs (Decidable (_ ∨ _))

def listDueWorkDeliveries (s : WorkTables) (now : Instant) : List WorkDelivery :=
  (s.deliveries.rows.filter (isDueDelivery · now)).insertionSort deliveryBefore

def getWorkDeliveryByItem (s : WorkTables) (workItemId : String) : Option WorkDelivery :=
  s.deliveries.get? workItemId

def putWorkDelivery (s : WorkTables) (delivery : WorkDelivery) : WorkTables :=
  let createdAt :=
    ((s.deliveries.get? delivery.workItemId).map (·.createdAt)).getD delivery.createdAt
  { s with deliveries := s.deliveries.put { delivery with createdAt } }

/-! ## What a put does -/

variable {s : WorkTables}

theorem get?_putWorkItem (item : WorkItem) (id : String) :
    (s.putWorkItem item).items.get? id =
      if item.id = id then some { item with
        createdAt := ((s.items.get? item.id).map (·.createdAt)).getD item.createdAt }
      else s.items.get? id := Table.get?_put _ _ _

theorem get?_putWorkRun (run : WorkRun) (id : String) :
    (s.putWorkRun run).runs.get? id =
      if run.id = id then some { run with
        workItemId := ((s.runs.get? run.id).map (·.workItemId)).getD run.workItemId
        createdAt := ((s.runs.get? run.id).map (·.createdAt)).getD run.createdAt }
      else s.runs.get? id := Table.get?_put _ _ _

theorem get?_putWorkDelivery (delivery : WorkDelivery) (workItemId : String) :
    (s.putWorkDelivery delivery).deliveries.get? workItemId =
      if delivery.workItemId = workItemId then some { delivery with
        createdAt :=
          ((s.deliveries.get? delivery.workItemId).map (·.createdAt)).getD delivery.createdAt }
      else s.deliveries.get? workItemId := Table.get?_put _ _ _

theorem mem_of_head?_insertionSort {α : Type} {r : α → α → Prop} [DecidableRel r] {l : List α}
    {a : α} (h : (l.insertionSort r).head? = some a) : a ∈ l :=
  (List.mem_insertionSort r).mp (List.mem_of_head? h)

/-- The active run of an item is one of its runs, and active. -/
theorem getActiveWorkRun_some {workItemId : String} {run : WorkRun}
    (h : s.getActiveWorkRun workItemId = some run) :
    s.runs.get? run.id = some run ∧ run.workItemId = workItemId ∧ run.status.isActive = true := by
  have hmem := mem_of_head?_insertionSort h
  obtain ⟨hrow, hactive⟩ := List.mem_filter.mp hmem
  simp only [decide_eq_true_eq] at hactive
  exact ⟨Table.get?_key hrow, hactive.1, hactive.2⟩

theorem getActiveWorkRun_none {workItemId : String}
    (h : s.getActiveWorkRun workItemId = none) : s.activeRuns workItemId = [] := by
  have hsorted : (s.activeRuns workItemId).insertionSort activeRunBefore = [] :=
    List.head?_eq_none_iff.mp h
  have hlength := (List.perm_insertionSort activeRunBefore (s.activeRuns workItemId)).length_eq
  rw [hsorted] at hlength
  exact List.length_eq_zero_iff.mp hlength.symm

theorem activeRuns_eq_nil {workItemId : String} :
    s.activeRuns workItemId = [] ↔ ∀ id run, s.runs.get? id = some run →
      run.workItemId = workItemId → run.status.isActive = false := by
  unfold activeRuns
  rw [List.filter_eq_nil_iff]
  constructor
  · intro h id run hrun hitem
    have hmem := (Table.get?_eq_some.mp hrun).1
    have hnot := h run hmem
    simp only [decide_eq_true_eq, not_and, Bool.not_eq_true] at hnot
    exact hnot hitem
  · intro h run hmem
    simp only [decide_eq_true_eq, not_and, Bool.not_eq_true]
    exact h run.id run (Table.get?_key hmem)

theorem startable_some {run : WorkRun} {item : WorkItem} (h : s.startable run = some item) :
    s.items.get? run.workItemId = some item ∧ item.id = run.workItemId ∧
      item.recipeId = some run.recipeId ∧ item.status = .opened ∧
      s.activeRuns run.workItemId = [] := by
  obtain ⟨hitem, hfilter⟩ := Option.filter_eq_some_iff.mp h
  have hid : item.id = run.workItemId := (Table.get?_eq_some.mp hitem).2
  simp only [decide_eq_true_eq] at hfilter
  obtain ⟨hrecipe, _, hopened, hnone⟩ := hfilter
  rw [hid] at hnone
  exact ⟨hitem, hid, hrecipe, hopened, hnone⟩

/-- What a claim that succeeds found, and what it leaves. -/
theorem claim_some_true {run : WorkRun} {maxConcurrent : Option Nat} {s' : WorkTables}
    (h : s.claimWorkRunStart run maxConcurrent = some (true, s')) :
    ∃ item, s.startable run = some item ∧ maxConcurrent.any (· ≤ s.occupied run.recipeId) = false ∧
      s.runs.get? run.id = none ∧ s' = (s.putWorkRun run).setRunning item run.updatedAt := by
  unfold claimWorkRunStart at h
  cases hstart : s.startable run with
  | none => simp [hstart] at h
  | some item =>
    simp only [hstart] at h
    by_cases hfull : maxConcurrent.any (· ≤ s.occupied run.recipeId) = true
    · simp [hfull] at h
    · simp only [hfull, Bool.false_eq_true, if_false] at h
      by_cases hexists : (s.runs.get? run.id).isSome = true
      · simp [hexists] at h
      · simp only [hexists, Bool.false_eq_true, if_false, Option.some.injEq, Prod.mk.injEq,
          true_and] at h
        refine ⟨item, rfl, by simpa using hfull, by simpa using hexists, h.symm⟩

theorem claim_some_false {run : WorkRun} {maxConcurrent : Option Nat} {s' : WorkTables}
    (h : s.claimWorkRunStart run maxConcurrent = some (false, s')) : s' = s := by
  unfold claimWorkRunStart at h
  cases hstart : s.startable run with
  | none =>
    simp only [hstart, Option.some.injEq, Prod.mk.injEq, true_and] at h
    exact h.symm
  | some item =>
    simp only [hstart] at h
    by_cases hfull : maxConcurrent.any (· ≤ s.occupied run.recipeId) = true
    · simp only [hfull, if_true, Option.some.injEq, Prod.mk.injEq, true_and] at h
      exact h.symm
    · by_cases hexists : (s.runs.get? run.id).isSome = true
      · simp [hfull, hexists] at h
      · simp [hfull, hexists] at h

end WorkTables

end Regenic.Work
