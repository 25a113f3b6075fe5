import Regenic.Lib.Run
import Regenic.Sync.Lease

/-!
Who may move the cursor of a stream. The lease column and the call history name the same
holder, so a settle that the column lets through is the holder's, and a page of any other
owner leaves every table as it was.
-/

namespace Regenic.Sync

open Lib

/-- The stream a call is about. -/
def LeaseOp.stream? : LeaseOp → Option StreamId
  | .acquireLease input => some input.stream
  | .releaseLease input => some (input.installationId, input.streamKey)
  | .resetCursor input => some (input.installationId, input.streamKey)
  | .beginAttempt _ => none
  | .commitSyncPage input => some input.settle.stream
  | .settleAttempt input => some input.stream

/-- The settle of a page commit, or of an attempt by itself. -/
def LeaseOp.settle? : LeaseOp → Option SettleIngestAttempt
  | .commitSyncPage input => some input.settle
  | .settleAttempt input => some input
  | _ => none

/-- The cursor row of its stream after a call that succeeds. -/
def LeaseOp.touched (op : LeaseOp) (row : Option ConnectorCursorRow) :
    Option ConnectorCursorRow :=
  match op with
  | .acquireLease input => some (row.elim input.openRow fun row =>
      row.grant input.leaseOwner input.leaseExpiresAt input.now)
  | .releaseLease input => row.map fun row => row.release input.now
  | .resetCursor input => row.map fun row => row.reset input.now
  | .beginAttempt _ => row
  | .commitSyncPage input => row.map fun row => row.settle input.settle
  | .settleAttempt input => row.map fun row => row.settle input

/-- Whether a call that succeeds writes the cursor: a reset always, a settle when it
counts no retryable failure and brings a cursor. -/
def LeaseOp.writesCursor : LeaseOp → Bool
  | .resetCursor _ => true
  | .commitSyncPage input => input.settle.advancesCursor
  | .settleAttempt input => input.advancesCursor
  | _ => false

namespace Runtime

variable (db : RuntimeTables) (stream : StreamId)

def cursorValue : Option String := (db.cursors.get? stream).bind (·.cursorValue)

def cursorVersion : Option Nat := (db.cursors.get? stream).map (·.cursorVersion)

def leaseOwner : Option String := (db.cursors.get? stream).bind (·.leaseOwner)

/-! ## The history of one lease -/

/-- A lease granted records its owner; a release, settle, commit or reset that takes
effect ends the lease; a refused call records nothing. -/
def recordsHolder (db : RuntimeTables) (op : LeaseOp) : Option (Option String) :=
  if succeeds db op = true ∧ op.stream? = some stream then
    match op with
    | .acquireLease input => some (some input.leaseOwner)
    | _ => some none
  else none

/-- The owner of the latest successful acquire of the stream along `ops`, if no release,
settle or reset has taken effect since. -/
def latestHolder (db : RuntimeTables) (ops : List LeaseOp) : Option String :=
  latest step (recordsHolder stream) db (leaseOwner db stream) ops

/-- Whether the call takes effect on the cursor of the stream. -/
def writesCursor (op : LeaseOp) : Bool :=
  succeeds db op && op.stream? = some stream && LeaseOp.writesCursor op

/-- Whether the call leases a stream that has no row yet. -/
def opensCursor (op : LeaseOp) : Bool :=
  match op with
  | .acquireLease input =>
    succeeds db op && input.stream = stream && (db.cursors.get? stream).isNone
  | _ => false

/-! ## One call -/

variable {db stream}

theorem heldBy_eq_true {owner : String} :
    heldBy db stream owner = true ↔ leaseOwner db stream = some owner := by
  unfold heldBy leaseOwner
  cases db.cursors.get? stream with
  | none => simp
  | some row => simp

/-- A call that fails leaves every table as it was. -/
theorem step_of_fails {op : LeaseOp} (h : succeeds db op = false) : step db op = db := by
  cases op with
  | acquireLease input =>
    simp only [succeeds, step, acquireLease] at h ⊢
    split at h
    · next hoff => rw [if_pos hoff]
    · next hon =>
      rw [if_neg hon]
      split at h
      · cases h
      · next taken =>
        rw [dif_neg taken]
        split at h
        · next hblocked => rw [if_pos hblocked]
        · obtain ⟨row, hrow⟩ := Option.ne_none_iff_exists'.mp taken
          rw [Table.get?_update, if_pos rfl, hrow] at h
          cases h
  | releaseLease input =>
    simp only [succeeds, step, releaseLease] at h ⊢
    split at h
    · cases h
    · next hfree => rw [if_neg hfree]
  | resetCursor input =>
    simp only [succeeds, step, resetCursor] at h ⊢
    split at h
    · next hnone => rfl
    · next cursor hcursor =>
      split at h
      · next hleased =>
        rw [if_pos hleased]
        rfl
      · simp only [Except.toOption, Option.any_some] at h
        rw [Table.get?_update, if_pos rfl, hcursor] at h
        cases h
  | beginAttempt input =>
    simp only [succeeds, step] at h ⊢
    cases hrun : beginAttemptUnlocked db input with
    | error error => rfl
    | ok next =>
      rw [hrun] at h
      cases h
  | commitSyncPage input =>
    simp only [succeeds, step] at h ⊢
    cases hrun : commitSyncPageUnlocked db input with
    | error error => rfl
    | ok next =>
      rw [hrun] at h
      cases h
  | settleAttempt input =>
    simp only [succeeds, step] at h ⊢
    cases hrun : settleAttemptUnlocked db input with
    | error error => rfl
    | ok next =>
      rw [hrun] at h
      cases h

/-- A settle that succeeds is of the owner in the lease column. -/
theorem settle_held {op : LeaseOp} {settle : SettleIngestAttempt}
    (hop : op.settle? = some settle) (h : succeeds db op = true) :
    leaseOwner db settle.stream = some settle.leaseOwner := by
  apply heldBy_eq_true.mp
  cases op with
  | commitSyncPage input =>
    obtain rfl : input.settle = settle := Option.some.inj hop
    cases hrun : commitSyncPageUnlocked db input with
    | error error =>
      simp only [succeeds, hrun] at h
      cases h
    | ok next => exact (commitSyncPageUnlocked_ok hrun).1
  | settleAttempt input =>
    obtain rfl : input = settle := Option.some.inj hop
    cases hrun : settleAttemptUnlocked db input with
    | error error =>
      simp only [succeeds, hrun] at h
      cases h
    | ok next => exact (settleAttemptUnlocked_ok hrun).1
  | _ => cases hop

/-- The row of a stream after one call. -/
theorem get?_step (op : LeaseOp) : (step db op).cursors.get? stream =
    if succeeds db op = true ∧ op.stream? = some stream then
      op.touched (db.cursors.get? stream)
    else db.cursors.get? stream := by
  cases hsucceeds : succeeds db op with
  | false => simp [step_of_fails hsucceeds]
  | true =>
    simp only [true_and]
    cases op with
    | acquireLease input =>
      simp only [succeeds, step, acquireLease, LeaseOp.stream?, LeaseOp.touched,
        Option.some.injEq] at hsucceeds ⊢
      split at hsucceeds
      · cases hsucceeds
      · next hon =>
        rw [if_neg hon]
        split at hsucceeds
        · next free =>
          rw [dif_pos free, Table.get?_insert, AcquireConnectorLease.openRow_stream]
          by_cases hstream : input.stream = stream
          · subst hstream
            simp [free]
          · simp [hstream]
        · next taken =>
          rw [dif_neg taken]
          split at hsucceeds
          · cases hsucceeds
          · next hopen =>
            rw [if_neg hopen, Table.get?_update]
            by_cases hstream : input.stream = stream
            · subst hstream
              obtain ⟨row, hrow⟩ := Option.ne_none_iff_exists'.mp taken
              simp [hrow]
            · simp [hstream, Ne.symm hstream]
    | releaseLease input =>
      simp only [succeeds, step, releaseLease, LeaseOp.stream?, LeaseOp.touched,
        Option.some.injEq] at hsucceeds ⊢
      split at hsucceeds
      · next hheld =>
        simp only [hheld, if_true, Table.get?_update, eq_comm]
      · cases hsucceeds
    | resetCursor input =>
      simp only [succeeds, step, resetCursor, LeaseOp.stream?, LeaseOp.touched,
        Option.some.injEq] at hsucceeds ⊢
      split at hsucceeds
      · cases hsucceeds
      · next cursor hcursor =>
        split at hsucceeds
        · cases hsucceeds
        · next hfree =>
          rw [if_neg hfree]
          simp only [Except.map, transact, Table.get?_update, eq_comm]
    | beginAttempt input =>
      simp only [LeaseOp.stream?, reduceCtorEq, if_false, step]
      cases hrun : beginAttemptUnlocked db input with
      | error error => rfl
      | ok next => simp only [transact, beginAttemptUnlocked_cursors hrun]
    | commitSyncPage input =>
      simp only [step, LeaseOp.stream?, LeaseOp.touched, Option.some.injEq]
      cases hrun : commitSyncPageUnlocked db input with
      | error error =>
        simp only [succeeds, hrun] at hsucceeds
        cases hsucceeds
      | ok next =>
        simp only [transact, (commitSyncPageUnlocked_ok hrun).2, Table.get?_update, eq_comm]
    | settleAttempt input =>
      simp only [step, LeaseOp.stream?, LeaseOp.touched, Option.some.injEq]
      cases hrun : settleAttemptUnlocked db input with
      | error error =>
        simp only [succeeds, hrun] at hsucceeds
        cases hsucceeds
      | ok next =>
        simp only [transact, (settleAttemptUnlocked_ok hrun).2, Table.get?_update, eq_comm]

/-- One call moves the lease column exactly as it moves the history. -/
theorem leaseOwner_step (op : LeaseOp) :
    leaseOwner (step db op) stream =
      (recordsHolder stream db op).getD (leaseOwner db stream) := by
  unfold leaseOwner recordsHolder
  rw [get?_step]
  by_cases hcall : succeeds db op = true ∧ op.stream? = some stream
  · rw [if_pos hcall, if_pos hcall]
    cases op with
    | acquireLease input =>
      cases db.cursors.get? stream <;> rfl
    | beginAttempt input => cases hcall.2
    | _ => cases db.cursors.get? stream <;> rfl
  · rw [if_neg hcall, if_neg hcall]
    rfl

theorem writesCursor_iff {op : LeaseOp} : writesCursor db stream op = true ↔
    (succeeds db op = true ∧ op.stream? = some stream) ∧ op.writesCursor = true := by
  simp [writesCursor]

/-- A settle that succeeds finds the row of its stream. -/
theorem settle_row {op : LeaseOp} {settle : SettleIngestAttempt}
    (hop : op.settle? = some settle) (h : succeeds db op = true) :
    ∃ row, db.cursors.get? settle.stream = some row := by
  have howner := settle_held hop h
  unfold leaseOwner at howner
  obtain ⟨row, hrow, _⟩ := Option.bind_eq_some_iff.mp howner
  exact ⟨row, hrow⟩

theorem cursorValue_step (op : LeaseOp) : cursorValue (step db op) stream =
    if writesCursor db stream op = true then op.settle?.bind (·.nextCursor)
    else cursorValue db stream := by
  unfold cursorValue
  rw [get?_step]
  by_cases hcall : succeeds db op = true ∧ op.stream? = some stream
  · simp only [writesCursor_iff, hcall, and_self, true_and, if_true]
    cases op with
    | beginAttempt input => cases hcall.2
    | commitSyncPage input =>
      obtain ⟨hsucceeds, hstream⟩ := hcall
      obtain rfl : input.settle.stream = stream := Option.some.inj hstream
      obtain ⟨row, hrow⟩ := settle_row rfl hsucceeds
      simp only [LeaseOp.touched, hrow, Option.map_some, Option.bind_some,
        ConnectorCursorRow.settle_cursorValue]
      rfl
    | settleAttempt input =>
      obtain ⟨hsucceeds, hstream⟩ := hcall
      obtain rfl : input.stream = stream := Option.some.inj hstream
      obtain ⟨row, hrow⟩ := settle_row rfl hsucceeds
      simp only [LeaseOp.touched, hrow, Option.map_some, Option.bind_some,
        ConnectorCursorRow.settle_cursorValue]
      rfl
    | _ => cases db.cursors.get? stream <;> rfl
  · simp only [writesCursor_iff, hcall, false_and, if_false]

theorem cursorVersion_step (op : LeaseOp) : cursorVersion (step db op) stream =
    if opensCursor db stream op = true then some 1
    else if writesCursor db stream op = true then (cursorVersion db stream).map (· + 1)
    else cursorVersion db stream := by
  unfold cursorVersion
  rw [get?_step]
  by_cases hcall : succeeds db op = true ∧ op.stream? = some stream
  · simp only [writesCursor_iff, hcall, and_self, true_and, if_true]
    cases op with
    | acquireLease input =>
      have hstream : input.stream = stream := Option.some.inj hcall.2
      simp only [opensCursor, hcall.1, hstream, decide_true, Bool.true_and]
      cases db.cursors.get? stream <;> rfl
    | beginAttempt input => cases hcall.2
    | commitSyncPage input =>
      obtain ⟨hsucceeds, hstream⟩ := hcall
      obtain rfl : input.settle.stream = stream := Option.some.inj hstream
      obtain ⟨row, hrow⟩ := settle_row rfl hsucceeds
      simp only [LeaseOp.touched, hrow, Option.map_some, opensCursor, Bool.false_eq_true,
        if_false, ConnectorCursorRow.settle, LeaseOp.writesCursor]
      split <;> rfl
    | settleAttempt input =>
      obtain ⟨hsucceeds, hstream⟩ := hcall
      obtain rfl : input.stream = stream := Option.some.inj hstream
      obtain ⟨row, hrow⟩ := settle_row rfl hsucceeds
      simp only [LeaseOp.touched, hrow, Option.map_some, opensCursor, Bool.false_eq_true,
        if_false, ConnectorCursorRow.settle, LeaseOp.writesCursor]
      split <;> rfl
    | _ => cases db.cursors.get? stream <;> rfl
  · have hopens : opensCursor db stream op = false := by
      cases op with
      | acquireLease input =>
        have hother : (succeeds db (.acquireLease input) && input.stream = stream) = false := by
          simpa [LeaseOp.stream?] using hcall
        simp [opensCursor, hother]
      | _ => rfl
    simp only [writesCursor_iff, hcall, hopens, false_and, Bool.false_eq_true, if_false]

/-- Along every run the column names the holder of the history. -/
theorem latestHolder_eq (s : RuntimeTables) (ops : List LeaseOp) :
    latestHolder stream s ops = leaseOwner (run step s ops) stream :=
  latest_eq_read step (recordsHolder stream) (fun t => leaseOwner t stream) (fun _ => True)
    (fun _ _ _ => trivial) (fun _ op _ => leaseOwner_step op) s trivial ops

/-- What one call may do to the cursor of the stream while `holder` has its lease. -/
structure CursorStep (stream : StreamId) (holder : Option String) (db : RuntimeTables)
    (op : LeaseOp) : Prop where
  moved : cursorValue (step db op) stream ≠ cursorValue db stream →
    (∃ settle, op.settle? = some settle ∧ settle.stream = stream ∧
      holder = some settle.leaseOwner ∧ settle.retryableFailureCount = 0 ∧
      settle.nextCursor.isSome = true ∧
      cursorValue (step db op) stream = settle.nextCursor) ∨
    ∃ input, op = .resetCursor input ∧ (input.installationId, input.streamKey) = stream ∧
      cursorValue (step db op) stream = none
  settled : ∀ settle, op.settle? = some settle → settle.stream = stream →
    succeeds db op = true → holder = some settle.leaseOwner
  cursor : cursorValue (step db op) stream =
    if writesCursor db stream op = true then op.settle?.bind (·.nextCursor)
    else cursorValue db stream
  version : cursorVersion (step db op) stream =
    if opensCursor db stream op = true then some 1
    else if writesCursor db stream op = true then (cursorVersion db stream).map (· + 1)
    else cursorVersion db stream
  refused : ∀ settle, op.settle? = some settle → settle.stream = stream →
    holder ≠ some settle.leaseOwner → succeeds db op = false ∧ step db op = db

theorem writesCursor_settle {op : LeaseOp} {settle : SettleIngestAttempt}
    (hop : op.settle? = some settle) (h : writesCursor db stream op = true) :
    settle.stream = stream ∧ settle.retryableFailureCount = 0 ∧
      settle.nextCursor.isSome = true := by
  obtain ⟨⟨_, hstream⟩, hwrites⟩ := writesCursor_iff.mp h
  cases op with
  | commitSyncPage input =>
    obtain rfl : input.settle = settle := Option.some.inj hop
    have hadvances : input.settle.advancesCursor = true := hwrites
    simp only [SettleIngestAttempt.advancesCursor, Bool.and_eq_true, decide_eq_true_eq]
      at hadvances
    exact ⟨Option.some.inj hstream, hadvances.1, hadvances.2⟩
  | settleAttempt input =>
    obtain rfl : input = settle := Option.some.inj hop
    have hadvances : input.advancesCursor = true := hwrites
    simp only [SettleIngestAttempt.advancesCursor, Bool.and_eq_true, decide_eq_true_eq]
      at hadvances
    exact ⟨Option.some.inj hstream, hadvances.1, hadvances.2⟩
  | _ => cases hop

/-- A step that moves the cursor is the holder's settle or a reset. -/
theorem cursor_moved {holder : Option String} (hholder : holder = leaseOwner db stream)
    {op : LeaseOp} (hmoved : cursorValue (step db op) stream ≠ cursorValue db stream) :
    (∃ settle, op.settle? = some settle ∧ settle.stream = stream ∧
      holder = some settle.leaseOwner ∧ settle.retryableFailureCount = 0 ∧
      settle.nextCursor.isSome = true ∧
      cursorValue (step db op) stream = settle.nextCursor) ∨
    ∃ input, op = .resetCursor input ∧ (input.installationId, input.streamKey) = stream ∧
      cursorValue (step db op) stream = none := by
  have hstep := @cursorValue_step db stream op
  have hwrites : writesCursor db stream op = true := by
    by_contra hquiet
    rw [if_neg hquiet] at hstep
    exact hmoved hstep
  rw [if_pos hwrites] at hstep
  obtain ⟨⟨hsucceeds, hstream⟩, hkind⟩ := writesCursor_iff.mp hwrites
  cases hop : op.settle? with
  | some settle =>
    left
    obtain ⟨hsettle, hcount, hnext⟩ := writesCursor_settle hop hwrites
    have howner := settle_held hop hsucceeds
    rw [hsettle] at howner
    rw [hop] at hstep
    exact ⟨settle, rfl, hsettle, hholder.trans howner, hcount, hnext, hstep⟩
  | none =>
    right
    rw [hop] at hstep
    cases op with
    | resetCursor input => exact ⟨input, rfl, Option.some.inj hstream, hstep⟩
    | commitSyncPage input => cases hop
    | settleAttempt input => cases hop
    | _ => cases hkind

/-- In every run of store calls on any streams, from any tables, each call moves a
stream's cursor only as the latest holder's settle or as a reset, counts its version by
those writes alone, and fails without a trace when it settles for anyone else. -/
theorem cursor_movedByHolder (stream : StreamId) (s : RuntimeTables) (before : List LeaseOp)
    (op : LeaseOp) :
    CursorStep stream (latestHolder stream s before) (run step s before) op := by
  have hholder := @latestHolder_eq stream s before
  constructor
  · exact cursor_moved hholder
  · intro settle hop hstream hsucceeds
    have howner := settle_held hop hsucceeds
    rw [hstream] at howner
    exact hholder.trans howner
  · exact cursorValue_step op
  · exact cursorVersion_step op
  · intro settle hop hstream hother
    have hfails : succeeds (run step s before) op = false := by
      cases hsucceeds : succeeds (run step s before) op with
      | false => rfl
      | true =>
        have howner := settle_held hop hsucceeds
        rw [hstream] at howner
        exact absurd (hholder.trans howner) hother
    exact ⟨hfails, step_of_fails hfails⟩

def leaseSample : RuntimeTables where
  installations := Table.insert ∅ ⟨"inst", "org", .enabled, none⟩ (Table.get?_empty "inst")

def acquireSample : LeaseOp :=
  .acquireLease
    { installationId := "inst", streamKey := "chat", leaseOwner := "poller", now := 0
      leaseDurationMs := 60 }

def beginSample : LeaseOp :=
  .beginAttempt
    { id := "attempt", orgId := "org", connectorInstallationId := "inst", streamKey := "chat"
      deliveryId := "delivery", startedAt := 0 }

def settleSample : SettleIngestAttempt where
  attemptId := "attempt"
  installationId := "inst"
  streamKey := "chat"
  leaseOwner := "poller"
  finishedAt := 1
  nextCursor := some "p1"

/-- A settle outside a page commit moves the cursor too, and a settle that brings the
stored cursor again counts a version without moving it. -/
theorem cursor_notOnlyCommits :
    (∃ before op, op.settle? = some settleSample ∧ (∀ input, op ≠ .commitSyncPage input) ∧
      (∀ input, op ≠ .resetCursor input) ∧
      cursorValue (step (run step leaseSample before) op) ("inst", "chat") ≠
        cursorValue (run step leaseSample before) ("inst", "chat")) ∧
    ∃ before op,
      cursorValue (step (run step leaseSample before) op) ("inst", "chat") =
        cursorValue (run step leaseSample before) ("inst", "chat") ∧
      cursorVersion (step (run step leaseSample before) op) ("inst", "chat") =
        (cursorVersion (run step leaseSample before) ("inst", "chat")).map (· + 1) := by
  constructor
  · refine ⟨[acquireSample, beginSample], .settleAttempt settleSample, rfl, nofun, nofun, ?_⟩
    decide
  · refine ⟨[acquireSample, beginSample, .settleAttempt settleSample, acquireSample],
      .settleAttempt settleSample, ?_, ?_⟩
    · decide
    · decide

end Runtime

end Regenic.Sync
