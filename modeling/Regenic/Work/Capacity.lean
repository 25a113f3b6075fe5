import Regenic.Work.OneRun

/-!
The cap of a recipe. A claim counts the recipe's items in its transaction before it makes one
more of them running. Every other writer puts a whole item; as long as none of these puts gives
a slot of the recipe to an item that holds none, the cap holds.
-/

namespace Regenic.Work

open Lib Reply

/-- Automatic and auxiliary starts of the recipe claim under its cap, and none is manual. -/
def CappedAt (recipeId : String) (cap : Nat) (id : String) (maxConcurrent : Option Nat) : Prop :=
  id = recipeId → maxConcurrent = some cap

def capRules (recipeId : String) (cap : Nat) : WorkRules where
  limits := CappedAt recipeId cap
  replaces := True
  reopens := True

instance (recipeId : String) (cap : Nat) (id : String) (maxConcurrent : Option Nat) :
    Decidable (CappedAt recipeId cap id maxConcurrent) :=
  inferInstanceAs (Decidable (_ → _))

/-- The item uses a slot of the recipe. -/
def HoldsSlot (recipeId : String) (item : WorkItem) : Prop :=
  item.recipeId = some recipeId ∧ isOccupiedRecipeSlot item.status = true

instance (recipeId : String) (item : WorkItem) : Decidable (HoldsSlot recipeId item) :=
  inferInstanceAs (Decidable (_ ∧ _))

/-- A put that writes an item as running or waiting under the recipe lands on an item that is
stored as such. -/
def SlotStillHeld (recipeId : String) : WorkCall → WorkEnv → WorkState → Prop
  | .putWorkItem _ row, _, s =>
    HoldsSlot recipeId row → ∃ stored ∈ s.tables.getWorkItem row.id, HoldsSlot recipeId stored
  | _, _, _ => True

instance (recipeId : String) : (c : WorkCall) → (env : WorkEnv) → (s : WorkState) →
    Decidable (SlotStillHeld recipeId c env s)
  | .putWorkItem _ row, _, s => inferInstanceAs (Decidable
    (HoldsSlot recipeId row → ∃ stored ∈ s.tables.getWorkItem row.id, HoldsSlot recipeId stored))
  | .listWorkItems _, _, _ | .getWorkItem _, _, _ | .getWorkItemByThread _, _, _
  | .listWorkRuns _, _, _ | .getWorkRun _, _, _ | .getActiveWorkRun _, _, _
  | .putWorkRun _ _, _, _ | .claimWorkRunStart _ _, _, _ | .listDueWorkDeliveries _, _, _
  | .getWorkDeliveryByItem _, _, _ | .latestWorkDelivery _, _, _ | .putWorkDelivery _ _, _, _
  | .getRecipe _, _, _ | .listRecipes, _, _ | .isStarting _ _, _, _
  | .reserveStart _ _ _ _, _, _ | .takeStart _ _ _, _, _ | .releaseStart _ _, _, _
  | .startFlush _ _ _, _, _ | .withTimeout _ _, _, _ | .settle _, _, _ | .expire _, _, _
  | .egressSend _ _, _, _ | .answerPrompt _ _, _, _ | .outside _, _, _ => isTrue trivial

section Slots

variable {recipeId : String} {t : WorkTables}

theorem occupied_eq (t : WorkTables) (recipeId : String) :
    t.occupied recipeId = t.items.rows.countP fun item => HoldsSlot recipeId item := rfl

/-- A put that takes no slot leaves no more of them used. -/
theorem occupied_putWorkItem {row : WorkItem}
    (hheld : HoldsSlot recipeId row →
      ∃ stored ∈ t.getWorkItem row.id, HoldsSlot recipeId stored) :
    (t.putWorkItem row).occupied recipeId ≤ t.occupied recipeId := by
  rw [occupied_eq, occupied_eq]
  apply Table.countP_le_of_keys
  intro item hitem hholds
  rcases Table.mem_put.mp hitem with heq | ⟨hold, _⟩
  · rw [heq] at hholds
    obtain ⟨stored, hstored, hslot⟩ := hheld (of_decide_eq_true hholds)
    obtain ⟨hmem, hid⟩ := Table.get?_eq_some.mp hstored
    rw [heq]
    exact ⟨stored, hmem, decide_eq_true hslot, hid⟩
  · exact ⟨item, hold, hholds, rfl⟩

/-- A claim takes one slot of its own recipe at most. -/
theorem occupied_setRunning (item : WorkItem) (now : Instant) :
    (t.setRunning item now).occupied recipeId ≤ t.occupied recipeId + 1 := by
  rw [occupied_eq, occupied_eq]
  apply Table.countP_le_add _ _ _ [item.id]
  intro other hother _ hid
  rcases Table.mem_put.mp hother with heq | ⟨hold, _⟩
  · rw [heq] at hid
    exact absurd (List.mem_singleton.mpr rfl) hid
  · exact hold

theorem occupied_setRunning_other {item : WorkItem} (hrecipe : item.recipeId ≠ some recipeId)
    (now : Instant) : (t.setRunning item now).occupied recipeId ≤ t.occupied recipeId := by
  rw [occupied_eq, occupied_eq]
  apply Table.countP_le_of_keys
  intro other hother hholds
  rcases Table.mem_put.mp hother with heq | ⟨hold, _⟩
  · rw [heq] at hholds
    exact absurd (of_decide_eq_true hholds).1 hrecipe
  · exact ⟨other, hold, hholds, rfl⟩

/-- The transaction of a claim keeps the cap that it is given. -/
theorem occupied_claim {cap : Nat} {run : WorkRun} {maxConcurrent : Option Nat} {t' : WorkTables}
    (hclaim : t.claimWorkRunStart run maxConcurrent = some (true, t'))
    (hlimits : CappedAt recipeId cap run.recipeId maxConcurrent)
    (h : t.occupied recipeId ≤ cap) : t'.occupied recipeId ≤ cap := by
  obtain ⟨item, hstart, hroom, _, htables⟩ := WorkTables.claim_some_true hclaim
  obtain ⟨_, _, hrecipe, _, _⟩ := WorkTables.startable_some hstart
  have hputRun : (t.putWorkRun run).occupied recipeId = t.occupied recipeId := rfl
  rw [htables]
  by_cases hown : run.recipeId = recipeId
  · rw [hlimits hown, hown] at hroom
    have hfree : t.occupied recipeId < cap := by
      simpa using hroom
    have hone : ((t.putWorkRun run).setRunning item run.updatedAt).occupied recipeId ≤
        (t.putWorkRun run).occupied recipeId + 1 := occupied_setRunning item run.updatedAt
    omega
  · have hother : item.recipeId ≠ some recipeId := by
      rw [hrecipe]
      intro heq
      exact hown (Option.some.inj heq)
    have hnone := occupied_setRunning_other (t := t.putWorkRun run) hother run.updatedAt
    omega

end Slots

theorem capacity_exec {recipeId : String} {cap : Nat} {h : WorkHistory} {s : WorkState}
    (c : WorkCall) (env : WorkEnv) (hcap : s.tables.occupied recipeId ≤ cap)
    (hc : Allowed (capRules recipeId cap) h c) (hcond : SlotStillHeld recipeId c env s) :
    (c.exec env s).2.tables.occupied recipeId ≤ cap := by
  rcases WorkCall.exec_items c env s with heq | ⟨copy, row, rfl, heq⟩ |
      ⟨run, maxConcurrent, tables, rfl, hclaim, heq⟩
  · unfold WorkTables.occupied
    rw [heq]
    exact hcap
  · rw [heq]
    exact Nat.le_trans (occupied_putWorkItem hcond) hcap
  · rw [heq]
    exact occupied_claim hclaim hc.2 hcap

/-- In every state no more items use a slot of the recipe than its cap. -/
def CapHolds (recipeId : String) (cap : Nat) (pool : WorkPool)
    (events : List (Nat × WorkEnv)) : Prop :=
  ∀ first rest, events = first ++ rest →
    (run WorkPool.step pool first).state.tables.occupied recipeId ≤ cap

/-- The cap of a recipe holds in every run of automatic and auxiliary starts, retries,
refreshes and the other operations in which no put gives a slot of the recipe to an item that
holds none. -/
theorem recipe_capHolds (digest : Digest) (recipeId : String) (cap : Nat)
    (ops : List WorkOperation) (hops : ∀ op ∈ ops, op.LimitsBy (CappedAt recipeId cap))
    (state : WorkState) (hstart : state.tables.occupied recipeId ≤ cap)
    (events : List (Nat × WorkEnv))
    (hcond : Along WorkPool.step (Pool.Meets (SlotStillHeld recipeId))
      (WorkPool.start (ops.map (·.program digest)) state) events) :
    CapHolds recipeId cap (WorkPool.start (ops.map (·.program digest)) state) events := by
  intro first rest hsplit
  rw [hsplit] at hcond
  have hcalm : ∀ p ∈ ops.map (·.program digest), Calm (capRules recipeId cap) [] p := by
    intro p hp
    obtain ⟨op, hop, rfl⟩ := List.mem_map.mp hp
    exact op.program_calm trivial (hops op hop) (Or.inl trivial)
  have hkeeps := orderly_keeps_state (fun s => s.tables.occupied recipeId ≤ cap)
    fun c env h (hc : Allowed (capRules recipeId cap) _ c)
      (hmeets : SlotStillHeld recipeId c env _) => capacity_exec c env h hc hmeets
  obtain ⟨_, _, hcap, _⟩ := hkeeps.run (Pool.freeEnds_true _) (start_follow state hcalm)
    ⟨hstart, allStand_nil _ _⟩ first ((along_append ..).mp hcond).1
  exact hcap

/-- One item at a time. -/
def cappedRecipe : Recipe := { sampleRecipe with maxConcurrent := some 1 }

def waitingItem : WorkItem := { sampleItem "w2" .opened with threadId := "dsh:b" }

/-- One item runs and another one waits for the slot. -/
def slotTaken : WorkState where
  tables :=
    { items := ((∅ : Table WorkItem.id).put (sampleItem "w1" .running)).put waitingItem
      runs := (∅ : Table WorkRun.id).put (sampleRun "run-1" "w1" .running)
      recipes := (∅ : Table Recipe.id).put cappedRecipe }

def saysWaiting : WorkEnv := agreeable { externalRunId := "x1", status := .waitingHuman } 1

def slotOps : List WorkOperation :=
  [.refreshRuns, .afterPrompt "dsh:a", .startItem 0 waitingItem cappedRecipe .auto]

theorem slotOps_capped : ∀ op ∈ slotOps, op.LimitsBy (CappedAt "r1" 1) := by
  intro op hop
  rcases List.mem_cons.mp hop with rfl | hop
  · trivial
  · rcases List.mem_cons.mp hop with rfl | hop
    · trivial
    · rw [List.mem_singleton.mp hop]
      exact fun _ => rfl

def slotPool : WorkPool := WorkPool.start (slotOps.map (·.program sampleDigest)) slotTaken

/-- The tick ends before the item gives its slot up. -/
theorem recipe_capHolds_inTurns :
    CapHolds "r1" 1 slotPool (List.replicate 14 (0, saysWaiting) ++
      List.replicate 18 (1, saysBye) ++ List.replicate 12 (2, saysRunning)) :=
  recipe_capHolds sampleDigest "r1" 1 slotOps slotOps_capped slotTaken (by decide +kernel) _
    (by decide +kernel)

/-- The tick is about to store the item as waiting when the item ends and another one takes
the slot; then both use it. -/
theorem recipe_capExceeded :
    ¬ CapHolds "r1" 1 slotPool ((List.replicate 13 (0, saysWaiting) ++
      List.replicate 18 (1, saysBye) ++ List.replicate 12 (2, saysRunning) ++
      [(0, saysWaiting)]) ++ []) := by
  intro h
  have hcap := h _ _ rfl
  exact absurd hcap (by decide +kernel)

end Regenic.Work
