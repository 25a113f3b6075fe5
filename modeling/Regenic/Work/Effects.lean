import Regenic.Work.ServiceDiscipline

/-!
What a call changes: each table has one kind of put, the claim changes the runs and the items,
and the record of sends only grows.
-/

namespace Regenic.Work

open Lib Reply

namespace WorkCall

variable (c : WorkCall) (env : WorkEnv) (s : WorkState)

/-- The tables change by a put or by a claim that succeeds. -/
theorem exec_tables :
    (c.exec env s).2.tables = s.tables ∨
      (∃ copy row, c = .putWorkItem copy row ∧
        (c.exec env s).2.tables = s.tables.putWorkItem row) ∨
      (∃ copy row, c = .putWorkRun copy row ∧
        (c.exec env s).2.tables = s.tables.putWorkRun row) ∨
      (∃ copy row, c = .putWorkDelivery copy row ∧
        (c.exec env s).2.tables = s.tables.putWorkDelivery row) ∨
      ∃ run maxConcurrent tables, c = .claimWorkRunStart run maxConcurrent ∧
        s.tables.claimWorkRunStart run maxConcurrent = some (true, tables) ∧
        (c.exec env s).2.tables = tables := by
  cases c with
  | putWorkItem copy row => exact Or.inr (Or.inl ⟨copy, row, rfl, rfl⟩)
  | putWorkRun copy row => exact Or.inr (Or.inr (Or.inl ⟨copy, row, rfl, rfl⟩))
  | putWorkDelivery copy row =>
    exact Or.inr (Or.inr (Or.inr (Or.inl ⟨copy, row, rfl, rfl⟩)))
  | claimWorkRunStart run maxConcurrent =>
    cases hclaim : s.tables.claimWorkRunStart run maxConcurrent with
    | none => exact Or.inl (by simp only [exec, hclaim])
    | some result =>
      obtain ⟨claimed, tables⟩ := result
      cases claimed with
      | true =>
        exact Or.inr (Or.inr (Or.inr (Or.inr ⟨run, maxConcurrent, tables, rfl, hclaim,
          by simp only [exec, hclaim]⟩)))
      | false =>
        have htables := WorkTables.claim_some_false hclaim
        exact Or.inl (by simp only [exec, hclaim, htables])
  | reserveStart dispatcher workItemId recipe items =>
    apply Or.inl
    simp only [exec]
    split
    · rfl
    · rfl
  | settle race =>
    apply Or.inl
    simp only [exec, WorkState.settle]
    split
    · rfl
    · rfl
  | expire race =>
    apply Or.inl
    simp only [exec, WorkState.settle]
    split
    · rfl
    · rfl
  | egressSend delivery text =>
    apply Or.inl
    simp only [exec]
    cases env.send with
    | ok receipt => rfl
    | error error => rfl
  | answerPrompt delivery text =>
    apply Or.inl
    simp only [exec]
    cases env.prompt with
    | ok accepted => rfl
    | error error => rfl
  | _ => exact Or.inl rfl

theorem exec_deliveries :
    (c.exec env s).2.tables.deliveries = s.tables.deliveries ∨
      ∃ copy row, c = .putWorkDelivery copy row ∧
        (c.exec env s).2.tables = s.tables.putWorkDelivery row := by
  rcases exec_tables c env s with heq | ⟨_, _, _, heq⟩ | ⟨_, _, _, heq⟩ | hput |
      ⟨_, _, _, _, hclaim, heq⟩
  · exact Or.inl (by rw [heq])
  · exact Or.inl (by rw [heq]; rfl)
  · exact Or.inl (by rw [heq]; rfl)
  · exact Or.inr hput
  · obtain ⟨item, _, _, _, htables⟩ := WorkTables.claim_some_true hclaim
    exact Or.inl (by rw [heq, htables]; rfl)

theorem exec_runs :
    (c.exec env s).2.tables.runs = s.tables.runs ∨
      (∃ copy row, c = .putWorkRun copy row ∧
        (c.exec env s).2.tables = s.tables.putWorkRun row) ∨
      ∃ run maxConcurrent tables, c = .claimWorkRunStart run maxConcurrent ∧
        s.tables.claimWorkRunStart run maxConcurrent = some (true, tables) ∧
        (c.exec env s).2.tables = tables := by
  rcases exec_tables c env s with heq | ⟨_, _, _, heq⟩ | hput | ⟨_, _, _, heq⟩ | hclaim
  · exact Or.inl (by rw [heq])
  · exact Or.inl (by rw [heq]; rfl)
  · exact Or.inr (Or.inl hput)
  · exact Or.inl (by rw [heq]; rfl)
  · exact Or.inr (Or.inr hclaim)

theorem exec_items :
    (c.exec env s).2.tables.items = s.tables.items ∨
      (∃ copy row, c = .putWorkItem copy row ∧
        (c.exec env s).2.tables = s.tables.putWorkItem row) ∨
      ∃ run maxConcurrent tables, c = .claimWorkRunStart run maxConcurrent ∧
        s.tables.claimWorkRunStart run maxConcurrent = some (true, tables) ∧
        (c.exec env s).2.tables = tables := by
  rcases exec_tables c env s with heq | hput | ⟨_, _, _, heq⟩ | ⟨_, _, _, heq⟩ | hclaim
  · exact Or.inl (by rw [heq])
  · exact Or.inr (Or.inl hput)
  · exact Or.inl (by rw [heq]; rfl)
  · exact Or.inl (by rw [heq]; rfl)
  · exact Or.inr (Or.inr hclaim)

/-- What was sent stays on record. -/
theorem exec_sends : s.sends <+: (c.exec env s).2.sends := by
  cases c with
  | claimWorkRunStart run maxConcurrent =>
    simp only [exec]
    split
    · exact List.prefix_refl _
    · exact List.prefix_refl _
  | reserveStart dispatcher workItemId recipe items =>
    simp only [exec]
    split
    · exact List.prefix_refl _
    · exact List.prefix_refl _
  | settle race =>
    simp only [exec, WorkState.settle]
    split
    · exact List.prefix_refl _
    · exact List.prefix_refl _
  | expire race =>
    simp only [exec, WorkState.settle]
    split
    · exact List.prefix_refl _
    · exact List.prefix_refl _
  | egressSend delivery text =>
    simp only [exec]
    cases env.send with
    | ok receipt => exact List.prefix_append _ _
    | error error => exact List.prefix_append _ _
  | answerPrompt delivery text =>
    simp only [exec]
    cases env.prompt with
    | ok accepted => exact List.prefix_append _ _
    | error error => exact List.prefix_append _ _
  | _ => exact List.prefix_refl _

end WorkCall

/-! ## Pools of orderly programs -/

section Pools

variable {rules : WorkRules} (J : WorkState → Prop)
  (stands : Told WorkCall.Response → WorkState → Prop)
  {cond : WorkCall → WorkEnv → WorkState → Prop}

/-- Programs that have made no call yet. -/
theorem start_follow {programs : List (WorkProg Unit)} (state : WorkState)
    (hcalm : ∀ p ∈ programs, Calm rules [] p) :
    (WorkPool.start programs state).Follow (workProtocol rules) (fun _ _ _ => True)
      fun _ => [] := by
  intro i p hp
  exact (hcalm p (List.mem_of_getElem? hp)).follows

/-- The rule for orderly programs: an invariant of the state and a meaning of what they were
told. -/
theorem orderly_keeps
    (hstep : ∀ {h s} c env, J s → AllStand stands h s → Allowed rules h c → cond c env s →
      J (c.exec env s).2 ∧ stands ⟨c, (c.exec env s).1⟩ (c.exec env s).2 ∧
        ∀ told, stands told s → stands told (c.exec env s).2) :
    Pool.Keeps (workProtocol rules) startHistory WorkCall.exec workFork cond
      fun modes s => J s ∧ ∀ i, AllStand stands (modes i) s :=
  Pool.Keeps.of_standing hstep fun _ c r p _ hfork => workFork_follows c r p hfork

theorem allStand_nil (s : WorkState) : ∀ _ : Nat, AllStand stands [] s :=
  fun _ _ ht => absurd ht List.not_mem_nil

theorem allStand_true (modes : Nat → WorkHistory) (s : WorkState) :
    ∀ i, AllStand (fun _ _ => True) (modes i) s := fun _ _ _ => trivial

/-- An invariant that needs no meaning of what was told. -/
theorem orderly_keeps_state
    (hstep : ∀ {h s} c env, J s → Allowed rules h c → cond c env s → J (c.exec env s).2) :
    Pool.Keeps (workProtocol rules) startHistory WorkCall.exec workFork cond
      fun modes s => J s ∧ ∀ i, AllStand (fun _ _ => True) (modes i) s := by
  apply orderly_keeps
  intro h s c env hJ _ hc hcond
  exact ⟨hstep c env hJ hc hcond, trivial, fun _ _ => trivial⟩

/-- Orderly programs are orderly wherever a run has taken them. -/
theorem run_follow {programs : List (WorkProg Unit)} (state : WorkState)
    (hcalm : ∀ p ∈ programs, Calm rules [] p) (events : List (Nat × WorkEnv)) :
    ∃ modes, (run WorkPool.step (WorkPool.start programs state) events).Follow
      (workProtocol rules) (fun _ _ _ => True) modes := by
  have hkeeps : Pool.Keeps (workProtocol rules) startHistory WorkCall.exec workFork
      (fun _ _ _ => True) _ := orderly_keeps_state (fun _ => True) fun _ _ _ _ _ => trivial
  have hmeets : Along WorkPool.step (Pool.Meets fun _ _ _ => True)
      (WorkPool.start programs state) events :=
    along_of_forall WorkPool.step (fun _ _ _ _ => trivial) _ events
  obtain ⟨modes, hfollow, _⟩ := hkeeps.run (Pool.freeEnds_true _) (start_follow state hcalm)
    ⟨trivial, allStand_nil _ _⟩ events hmeets
  exact ⟨modes, hfollow⟩

end Pools

/-- An outside in which everything works: the channel accepts, and an executor says `handle`. -/
def agreeable (handle : ExecutorRunHandle) (now : Instant) : WorkEnv where
  send := .ok { accepted := true }
  prompt := .ok true
  answer
    | .now => .ok now
    | .randomUUID => .ok "u1"
    | .hasExecutor _ | .wantsWriteBack _ _ | .recipeTextMatches _ _ | .matchesRecipe _ _
    | .headUnchanged _ _ => .ok true
    | .shouldDeferWork _ _ => .ok false
    | .executorStatus _ | .reapIfInboxEnded _ _ _ | .executorResume _ _ => .ok handle
    | .executorStart _ _ => .ok { outcome := .ok handle }
    | .spawnSysout _ => .ok "t1"
    | .findForThread _ => .ok (some true)
    | .matchPrompt _ _ => .ok .option
    | .ensureMounted | .executorCancel _ | .writeStdin _ _ | .foldFinishedWorkThreads _
    | .startContext _ _ | .followSysout _ | .bindEgress _ | .ingestSent _ => .ok ()

/-- A recipe whose results go back to the chat they came from. -/
def sampleRecipe : Recipe :=
  { id := "r1", trigger := .manual, executorType := "agent", canWriteBack := true }

def sampleItem (id : String) (status : WorkItemStatus) : WorkItem :=
  { id, threadId := "dsh:a", unitKey := "u1", status, recipeId := some "r1"
    createdAt := 0, updatedAt := 0 }

def sampleRun (id workItemId : String) (status : WorkRunStatus) : WorkRun :=
  { id, workItemId, recipeId := "r1", executorType := "agent", status
    createdAt := 0, updatedAt := 0 }

end Regenic.Work
