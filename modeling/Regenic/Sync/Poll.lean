import Regenic.Ingest.Contracts
import Regenic.Lib.Run
import Regenic.Sync.Phase
import Regenic.Sync.PhaseWrite

/-!
Polling one stream and remembering the result. Two stored cursors decide where the next
poll starts: the lease row, which a page settles, and the sync state, which the outcome
of the whole poll advances.
-/

namespace Regenic.Sync

open Lib Ingest

/-- The stored cursors of one stream. -/
structure StreamCursors where
  lease : Option String
  sync : Option SyncStreamState
  deriving DecidableEq, Repr

/-- A page the connector returned, with the results of ingesting its records. -/
structure PollPage where
  records : List IngestRecordResult
  nextCursor : Option String := none
  hasMore : Option Bool := none
  mediaPending : Option Bool := none
  pollHint : Option SyncPollHint := none
  deriving DecidableEq, Repr

def PollPage.retryableFailureCount (page : PollPage) : Nat :=
  (ingestAttemptSummary page.records).retryableFailureCount

inductive SkippedStatus where
  | leaseUnavailable
  | throttled
  | unsupportedMode
  deriving DecidableEq, Repr

inductive ConnectorPollRunResult where
  | skipped (status : SkippedStatus)
  | completed (page : PollPage)
  | retryableFailure (page : PollPage)
  deriving DecidableEq, Repr

/-- What one `runner.poll` meets: it is refused, it throws, or a page comes back and is
ingested. -/
inductive PageAnswer where
  | skipped (status : SkippedStatus)
  | threw
  | answered (page : PollPage)
  deriving DecidableEq, Repr

/-- The cursor a settle leaves: it moves on a page without retryable failures that
returned one. -/
def settledCursor (retryableFailureCount : Nat) (nextCursor current : Option String) :
    Option String :=
  if retryableFailureCount = 0 then nextCursor <|> current else current

/-- `ConnectorRunner.poll`: none when it throws, which leaves the cursor. -/
def runnerPoll (commitCursor : Bool) (lease : Option String) :
    PageAnswer → Option String × Option ConnectorPollRunResult
  | .skipped status => (lease, some (.skipped status))
  | .threw => (lease, none)
  | .answered page =>
    let storedCursor := if commitCursor then page.nextCursor else none
    let lease := settledCursor page.retryableFailureCount storedCursor lease
    (lease, some (if page.retryableFailureCount = 0 then .completed page
      else .retryableFailure page))

/-- Whether a completed page is followed by another. -/
def pageContinues (kind : CursorKind) (seenCursors : List String) (page : PollPage) :
    Option String :=
  let historyPending := page.pollHint.any (·.historyPending = some true)
  if sameLaneContinues kind (page.hasMore = some true) historyPending then
    (present page.nextCursor).filter fun cursor => !seenCursors.contains cursor
  else none

/-- The page loop of `pollStream`. A thrown page loses the runs before it. -/
def pollPages (kind : CursorKind) (commitCursor : Bool) (answers : Nat → PageAnswer) :
    Nat → Nat → List String → Option String →
      Option String × Option (List ConnectorPollRunResult)
  | 0, _, _, lease => (lease, some [])
  | left + 1, index, seenCursors, lease =>
    match runnerPoll commitCursor lease (answers index) with
    | (lease, none) => (lease, none)
    | (lease, some (.completed page)) =>
      match pageContinues kind seenCursors page with
      | none => (lease, some [.completed page])
      | some cursor =>
        let (lease, rest) :=
          pollPages kind commitCursor answers left (index + 1) (cursor :: seenCursors) lease
        (lease, rest.map (.completed page :: ·))
    | (lease, some run) => (lease, some [run])

structure PollInput where
  older : Bool := false
  before : Option String := none
  media : Bool := false
  maxPages : Nat
  answers : Nat → PageAnswer
  idleMs : Option Int := none
  policy : HistoryPolicy := defaultHistoryPolicy
  /-- The stream has left a complete catalog when the outcome is stored. -/
  leftCatalog : Bool := false
  now : Instant

def PollInput.kind (input : PollInput) : CursorKind :=
  cursorKindFromPoll input.older input.before

def pollStream (lease : Option String) (input : PollInput) :
    Option String × Option (List ConnectorPollRunResult) :=
  pollPages input.kind (cursorWriteFor input.kind false).lease input.answers input.maxPages 0
    [] lease

def ConnectorPollRunResult.page? : ConnectorPollRunResult → Option PollPage
  | .skipped _ => none
  | .completed page => some page
  | .retryableFailure page => some page

/-- The row as the store hands it out: an empty cursor reads as absent. -/
def toSyncState (row : SyncStreamState) : SyncStreamState :=
  { row with
    liveCursor := present row.liveCursor
    historyCursor := present row.historyCursor }

variable (installationId streamKey : String)

/-- `pages` is none when the poll threw: the outcome is an error without pages. -/
def syncOutcomeForPoll (prior : Option SyncStreamState) (input : PollInput)
    (runs : Option (List ConnectorPollRunResult)) : SyncPageOutcome :=
  let pages := (runs.getD []).filterMap (·.page?)
  let kind := input.kind
  let nextCursor := pages.getLast?.bind (·.nextCursor)
  let pollHint := (pages.reverse.find? (·.pollHint.isSome)).bind (·.pollHint)
  let historyPending := pollHint.any (·.historyPending = some true)
  let write := cursorWriteFor kind (kind = .live && shouldSeedHistoryCursor
    input.policy (prior.map (·.phase)) (prior.bind (·.historyCursor)) historyPending)
  let results := pages.flatMap (·.records)
  { installationId
    streamKey
    older := input.older
    media := input.media
    acceptedCount := results.countP (·.status = .accepted)
    quarantinedCount := results.countP (·.status = .quarantined)
    hasMore := sameLaneContinues kind (pages.any (·.hasMore = some true)) historyPending
    nextLiveCursor := if write.live then nextCursor else none
    nextHistoryCursor := if write.history then nextCursor else none
    mediaPending := pages.getLast?.bind (·.mediaPending)
    idleMs := input.idleMs
    pollHint
    cursorKind := kind
    historyPolicy := input.policy
    error := runs.isNone
    now := input.now }

/-- The row `putSyncState` leaves for its stream. -/
def putStreamState (policy : HistoryPolicy) (leftCatalog : Bool) (state : SyncStreamState) :
    Option SyncStreamState :=
  if leftCatalog then none else some (releaseHistoryPhase state policy)

/-- One poll of the stream, remembered through `SyncEngine.rememberResult`. -/
def pollAndRemember (cursors : StreamCursors) (input : PollInput) : StreamCursors :=
  let prior := cursors.sync.map toSyncState
  let (lease, runs) := pollStream cursors.lease input
  let outcome := syncOutcomeForPoll installationId streamKey prior input runs
  { lease
    sync := putStreamState input.policy input.leftCatalog (advanceSyncState prior outcome) }

/-- The cursor handed to the connector by the first page of the next poll of the kind. -/
def handedCursor (kind : CursorKind) (cursors : StreamCursors) : Option String :=
  let prior := cursors.sync.map toSyncState
  pollCursorValue kind (prior.bind (·.liveCursor)) (prior.bind (·.historyCursor)) none <|>
    present cursors.lease

/-! ## The pages a poll reads -/

/-- The completed pages of a poll, and the answer that ended it if that was another. -/
structure PollTrail where
  completed : List PollPage
  last : Option PageAnswer

/-- The trail of the connector's answers alone, whatever the stored cursors are. -/
def pollTrail (kind : CursorKind) (answers : Nat → PageAnswer) :
    Nat → Nat → List String → PollTrail
  | 0, _, _ => ⟨[], none⟩
  | left + 1, index, seenCursors =>
    match answers index with
    | .answered page =>
      if page.retryableFailureCount = 0 then
        match pageContinues kind seenCursors page with
        | none => ⟨[page], none⟩
        | some cursor =>
          let rest := pollTrail kind answers left (index + 1) (cursor :: seenCursors)
          ⟨page :: rest.completed, rest.last⟩
      else ⟨[], some (.answered page)⟩
    | answer => ⟨[], some answer⟩

def PollInput.trail (input : PollInput) : PollTrail :=
  pollTrail input.kind input.answers input.maxPages 0 []

/-- The runs a trail is reported as; a thrown page loses them. -/
def PollTrail.runs (trail : PollTrail) : Option (List ConnectorPollRunResult) :=
  let completed := trail.completed.map ConnectorPollRunResult.completed
  match trail.last with
  | none => some completed
  | some (.skipped status) => some (completed ++ [.skipped status])
  | some .threw => none
  | some (.answered page) => some (completed ++ [.retryableFailure page])

/-- The lease cursor after the completed pages of a trail. -/
def PollTrail.lease (trail : PollTrail) (commitCursor : Bool) (lease : Option String) :
    Option String :=
  trail.completed.foldl
    (fun lease page => (if commitCursor then page.nextCursor else none) <|> lease) lease

theorem pollPages_trail (kind : CursorKind) (commitCursor : Bool)
    (answers : Nat → PageAnswer) (left index : Nat) (seenCursors : List String)
    (lease : Option String) :
    pollPages kind commitCursor answers left index seenCursors lease =
      ((pollTrail kind answers left index seenCursors).lease commitCursor lease,
        (pollTrail kind answers left index seenCursors).runs) := by
  induction left generalizing index seenCursors lease with
  | zero => rfl
  | succ left ih =>
    unfold pollPages pollTrail
    cases hanswer : answers index with
    | skipped status => rfl
    | threw => rfl
    | answered page =>
      by_cases hfailed : page.retryableFailureCount = 0
      · simp only [runnerPoll, hfailed, if_true, settledCursor]
        cases hnext : pageContinues kind seenCursors page with
        | none => rfl
        | some cursor =>
          simp only [ih]
          refine Prod.ext rfl ?_
          cases hlast : (pollTrail kind answers left (index + 1)
              (cursor :: seenCursors)).last with
          | none => simp [PollTrail.runs, hlast]
          | some answer => cases answer <;> simp [PollTrail.runs, hlast]
      · simp only [runnerPoll, hfailed, if_false, settledCursor]
        rfl

theorem pollStream_trail (lease : Option String) (input : PollInput) :
    pollStream lease input =
      (input.trail.lease (cursorWriteFor input.kind false).lease lease, input.trail.runs) :=
  pollPages_trail input.kind _ input.answers input.maxPages 0 [] lease

/-- A trail moves the lease only to a cursor that one of its completed pages returned. -/
theorem PollTrail.lease_mem (trail : PollTrail) (commitCursor : Bool)
    (lease : Option String) :
    trail.lease commitCursor lease = lease ∨
      ∃ page ∈ trail.completed, trail.lease commitCursor lease = page.nextCursor := by
  obtain ⟨completed, last⟩ := trail
  induction completed generalizing lease with
  | nil => exact Or.inl rfl
  | cons page rest ih =>
    have hcons : PollTrail.lease ⟨page :: rest, last⟩ commitCursor lease =
        PollTrail.lease ⟨rest, last⟩ commitCursor
          ((if commitCursor then page.nextCursor else none) <|> lease) := rfl
    rw [hcons]
    rcases ih ((if commitCursor then page.nextCursor else none) <|> lease) with hsame | hpage
    · rw [hsame]
      cases commitCursor with
      | false => exact Or.inl rfl
      | true =>
        cases hcursor : page.nextCursor with
        | none => exact Or.inl (by simp)
        | some cursor => exact Or.inr ⟨page, List.mem_cons_self, by simp [hcursor]⟩
    · obtain ⟨other, hmem, heq⟩ := hpage
      exact Or.inr ⟨other, List.mem_cons_of_mem page hmem, heq⟩

/-! ## The cursor of a failed page -/

def StreamCursors.live (cursors : StreamCursors) : Option String :=
  cursors.sync.bind (·.liveCursor)

def StreamCursors.history (cursors : StreamCursors) : Option String :=
  cursors.sync.bind (·.historyCursor)

/-- A stored cursor reads as `cursor`, as it stands or without its outer blanks. -/
def readsAs (cursor value : String) : Prop := value = cursor ∨ jsTrim value = cursor

instance (cursor value : String) : Decidable (readsAs cursor value) :=
  inferInstanceAs (Decidable (_ ∨ _))

/-- An earlier page of the poll completed with a cursor that reads the same. -/
def PollTrail.returned (trail : PollTrail) (cursor : String) : Prop :=
  ∃ page ∈ trail.completed, page.nextCursor.any fun value => readsAs cursor value

instance (trail : PollTrail) (cursor : String) : Decidable (trail.returned cursor) :=
  inferInstanceAs (Decidable (∃ page ∈ trail.completed, _))

/-- No stored cursor takes the cursor of a failed page, and the next poll of the kind
is not handed it, unless the store already held it. -/
structure FailedCursorKept (kind : CursorKind) (cursor : String)
    (before after : StreamCursors) : Prop where
  lease : after.lease = some cursor → before.lease = some cursor
  live : after.live = some cursor → before.live = some cursor
  history : after.history = some cursor → before.history = some cursor
  handed : handedCursor kind after = some cursor → ∃ value, readsAs cursor value ∧
    (before.lease = some value ∨ before.live = some value ∨ before.history = some value)

/-- The poll skips no page: what its failed page returned is not stored. A cursor that
an earlier page of the poll completed with is not the failed page's. -/
def SkipsNoPage (before : StreamCursors) (input : PollInput) : Prop :=
  ∀ page cursor, input.trail.last = some (.answered page) → page.nextCursor = some cursor →
    ¬ input.trail.returned cursor →
    FailedCursorKept input.kind cursor before
      (pollAndRemember installationId streamKey before input)

/-- The failed poll seeds the history walk. -/
def seedsHistory (before : StreamCursors) (input : PollInput) (page : PollPage) : Bool :=
  let pages := input.trail.completed ++ [page]
  let pollHint := (pages.reverse.find? (·.pollHint.isSome)).bind (·.pollHint)
  shouldSeedHistoryCursor input.policy (before.sync.map (·.phase)) (present before.history)
    (pollHint.any (·.historyPending = some true))

/-- When a failed page does no harm: it returned no cursor, or an earlier page completed
with it, or the poll was a scroll, or the stream has left its catalog, or every sync
cursor that the poll writes held it before. -/
def FailedPageHarmless (before : StreamCursors) (input : PollInput) : Prop :=
  ∀ page cursor, input.trail.last = some (.answered page) → page.nextCursor = some cursor →
    input.trail.returned cursor ∨ input.kind = .scroll ∨ input.leftCatalog = true ∨
      (input.kind = .live ∧ before.live = some cursor ∧
        (seedsHistory before input page = true → before.history = some cursor)) ∨
      (input.kind = .history ∧ before.history = some cursor)

theorem read_live (cursors : StreamCursors) :
    (cursors.sync.map toSyncState).bind (·.liveCursor) = present cursors.live := by
  cases h : cursors.sync <;> simp [StreamCursors.live, h, toSyncState, present]

theorem read_history (cursors : StreamCursors) :
    (cursors.sync.map toSyncState).bind (·.historyCursor) = present cursors.history := by
  cases h : cursors.sync <;> simp [StreamCursors.history, h, toSyncState, present]

theorem PollTrail.pages_of_failed {trail : PollTrail} {page : PollPage}
    (h : trail.last = some (.answered page)) :
    (trail.runs.getD []).filterMap (·.page?) = trail.completed ++ [page] := by
  simp [PollTrail.runs, h, ConnectorPollRunResult.page?]

/-- The sync cursors after a poll with a failed page: every written one took its cursor. -/
theorem pollAndRemember_failed {before : StreamCursors} {input : PollInput} {page : PollPage}
    {cursor : String} (hlast : input.trail.last = some (.answered page))
    (hcursor : page.nextCursor = some cursor) :
    (pollAndRemember installationId streamKey before input).live =
        (if input.leftCatalog then none
        else if input.kind = .live then some cursor else present before.live) ∧
      (pollAndRemember installationId streamKey before input).history =
        (if input.leftCatalog then none
        else if input.kind = .history ∨
            input.kind = .live ∧ seedsHistory before input page = true then some cursor
          else present before.history) := by
  have hpages := PollTrail.pages_of_failed hlast
  have hphase : (before.sync.map toSyncState).map (·.phase) = before.sync.map (·.phase) := by
    cases before.sync <;> rfl
  unfold pollAndRemember
  rw [pollStream_trail]
  simp only [StreamCursors.live, StreamCursors.history, putStreamState]
  cases hleft : input.leftCatalog with
  | true => simp
  | false =>
    have hrelease : ∀ state,
        (releaseHistoryPhase state input.policy).liveCursor = state.liveCursor ∧
          (releaseHistoryPhase state input.policy).historyCursor = state.historyCursor := by
      intro state
      unfold releaseHistoryPhase
      split <;> exact ⟨rfl, rfl⟩
    simp only [Bool.false_eq_true, if_false, Option.bind_some, hrelease, advanceSyncState,
      read_live, read_history]
    unfold syncOutcomeForPoll
    simp only [hpages, List.getLast?_concat, Option.bind_some, hcursor, hphase, read_history]
    cases hkind : input.kind with
    | scroll => simp [cursorWriteFor, StreamCursors.live, StreamCursors.history]
    | history => simp [cursorWriteFor, StreamCursors.live]
    | live =>
      simp only [cursorWriteFor, decide_true, Bool.true_and, if_true, true_and]
      refine ⟨rfl, ?_⟩
      change ((if seedsHistory before input page = true then some cursor else none) <|>
        present before.history) = _
      cases seedsHistory before input page <;> simp [StreamCursors.history]

theorem pollAndRemember_lease (before : StreamCursors) (input : PollInput) :
    (pollAndRemember installationId streamKey before input).lease =
      input.trail.lease (cursorWriteFor input.kind false).lease before.lease := by
  unfold pollAndRemember
  rw [pollStream_trail]

theorem lease_of_failed {before : StreamCursors} {input : PollInput} {cursor value : String}
    (hfresh : ¬ input.trail.returned cursor) (hreads : readsAs cursor value)
    (h : (pollAndRemember installationId streamKey before input).lease = some value) :
    before.lease = some value := by
  rw [pollAndRemember_lease] at h
  rcases input.trail.lease_mem (cursorWriteFor input.kind false).lease before.lease with
    hsame | ⟨page, hpage, hcursor⟩
  · exact hsame ▸ h
  · refine absurd ⟨page, hpage, ?_⟩ hfresh
    rw [← hcursor, h]
    simpa using hreads

/-- A harmless failed page: what the sync cursors hold afterwards they held before. -/
theorem sync_of_harmless {before : StreamCursors} {input : PollInput} {page : PollPage}
    {cursor : String} (hlast : input.trail.last = some (.answered page))
    (hcursor : page.nextCursor = some cursor) (hfresh : ¬ input.trail.returned cursor)
    (hharmless : FailedPageHarmless before input) (value : String) :
    ((pollAndRemember installationId streamKey before input).live = some value →
      before.live = some value) ∧
    ((pollAndRemember installationId streamKey before input).history = some value →
      before.history = some value) := by
  obtain ⟨hlive, hhistory⟩ := pollAndRemember_failed installationId streamKey hlast hcursor
  have hread : ∀ stored : Option String, present stored = some value → stored = some value :=
    fun stored h => (present_some.mp h).1
  rw [hlive, hhistory]
  rcases hharmless page cursor hlast hcursor with
    hreturned | hscroll | hleft | ⟨hkind, hheld, hseed⟩ | ⟨hkind, hheld⟩
  · exact absurd hreturned hfresh
  · simp only [hscroll]
    cases input.leftCatalog with
    | true => simp
    | false => simpa using ⟨hread _, hread _⟩
  · simp [hleft]
  · cases input.leftCatalog with
    | true => simp
    | false =>
      simp only [hkind, Bool.false_eq_true, if_false, if_true, true_and]
      constructor
      · intro h
        rw [hheld, h]
      · intro h
        split at h
        · next hseeds =>
          have hseeded : seedsHistory before input page = true := by simpa using hseeds
          rw [hseed hseeded, h]
        · exact hread _ h
  · cases input.leftCatalog with
    | true => simp
    | false =>
      simp only [hkind, Bool.false_eq_true, if_false, true_or, if_true]
      constructor
      · intro h
        exact hread _ (by simpa using h)
      · intro h
        rw [hheld, h]

theorem handedCursor_reads {kind : CursorKind} {cursors : StreamCursors} {cursor : String}
    (h : handedCursor kind cursors = some cursor) :
    ∃ value, readsAs cursor value ∧
      (cursors.lease = some value ∨ cursors.live = some value ∨
        cursors.history = some value) := by
  unfold handedCursor pollCursorValue at h
  dsimp only at h
  rw [read_live, read_history] at h
  have htrim : ∀ stored : Option String,
      present ((present stored).map jsTrim) = some cursor →
      ∃ value, readsAs cursor value ∧ stored = some value := by
    intro stored hstored
    obtain ⟨hmap, _⟩ := present_some.mp hstored
    obtain ⟨value, hvalue, htrimmed⟩ := Option.map_eq_some_iff.mp hmap
    exact ⟨value, Or.inr htrimmed, (present_some.mp hvalue).1⟩
  have hcases : ∀ stored : Option String,
      ((present ((present stored).map jsTrim) <|> present ((none : Option String).map jsTrim)) <|>
        present cursors.lease) = some cursor →
      (∃ value, readsAs cursor value ∧ stored = some value) ∨ cursors.lease = some cursor := by
    intro stored hstored
    cases hfirst : present ((present stored).map jsTrim) with
    | some first =>
      rw [hfirst] at hstored
      left
      apply htrim
      rw [hfirst]
      simpa using hstored
    | none =>
      rw [hfirst] at hstored
      right
      exact (present_some.mp (by simpa [present] using hstored)).1
  cases kind with
  | history =>
    rcases hcases _ h with ⟨value, hreads, hheld⟩ | hlease
    · exact ⟨value, hreads, Or.inr (Or.inr hheld)⟩
    · exact ⟨cursor, Or.inl rfl, Or.inl hlease⟩
  | live =>
    rcases hcases _ h with ⟨value, hreads, hheld⟩ | hlease
    · exact ⟨value, hreads, Or.inr (Or.inl hheld)⟩
    · exact ⟨cursor, Or.inl rfl, Or.inl hlease⟩
  | scroll =>
    rcases hcases _ h with ⟨value, hreads, hheld⟩ | hlease
    · exact ⟨value, hreads, Or.inr (Or.inl hheld)⟩
    · exact ⟨cursor, Or.inl rfl, Or.inl hlease⟩

/-- One poll skips no page exactly when its failed page is harmless. -/
theorem skipsNoPage_iff_harmless (before : StreamCursors) (input : PollInput) :
    SkipsNoPage installationId streamKey before input ↔
      FailedPageHarmless before input := by
  constructor
  · intro hskips page cursor hlast hcursor
    by_cases hfresh : input.trail.returned cursor
    · exact Or.inl hfresh
    · have hkept := hskips page cursor hlast hcursor hfresh
      obtain ⟨hlive, hhistory⟩ :=
        pollAndRemember_failed installationId streamKey hlast hcursor
      cases hleft : input.leftCatalog with
      | true => exact Or.inr (Or.inr (Or.inl rfl))
      | false =>
        rw [hleft] at hlive hhistory
        simp only [Bool.false_eq_true, if_false] at hlive hhistory
        cases hkind : input.kind with
        | scroll => exact Or.inr (Or.inl rfl)
        | live =>
          rw [if_pos hkind] at hlive
          refine Or.inr (Or.inr (Or.inr (Or.inl ⟨rfl, hkept.live hlive, ?_⟩)))
          intro hseeds
          apply hkept.history
          rw [hhistory, if_pos (Or.inr ⟨hkind, hseeds⟩)]
        | history =>
          rw [if_pos (Or.inl hkind)] at hhistory
          exact Or.inr (Or.inr (Or.inr (Or.inr ⟨rfl, hkept.history hhistory⟩)))
  · intro hharmless page cursor hlast hcursor hfresh
    have hsync := sync_of_harmless installationId streamKey hlast hcursor hfresh hharmless
    refine ⟨?_, (hsync cursor).1, (hsync cursor).2, ?_⟩
    · exact lease_of_failed installationId streamKey hfresh (Or.inl rfl)
    · intro hhanded
      obtain ⟨value, hreads, hheld⟩ := handedCursor_reads hhanded
      refine ⟨value, hreads, ?_⟩
      rcases hheld with hlease | hlive | hhistory
      · exact Or.inl (lease_of_failed installationId streamKey hfresh hreads hlease)
      · exact Or.inr (Or.inl ((hsync value).1 hlive))
      · exact Or.inr (Or.inr ((hsync value).2 hhistory))

/-- A sequence of polls of one stream skips no page exactly when every failed page in it
is harmless. -/
theorem polls_skipNoPage_iff (cursors : StreamCursors) (inputs : List PollInput) :
    Along (pollAndRemember installationId streamKey)
        (SkipsNoPage installationId streamKey) cursors inputs ↔
      Along (pollAndRemember installationId streamKey)
        (FailedPageHarmless) cursors inputs :=
  along_iff _ (fun _ => True) (fun _ _ h => h)
    (fun before input _ => skipsNoPage_iff_harmless installationId streamKey before input)
    cursors trivial inputs

/-- A live poll of a stream at cursor `p1` whose one page fails and returns `p2`. -/
def failedLivePoll : PollInput where
  maxPages := 1
  answers := fun _ => .answered
    { records := [⟨"message", .retryableFailure, none, some .internalError⟩]
      nextCursor := some "p2" }
  now := 1

def atFirstPage : StreamCursors where
  lease := some "p1"
  sync := some
    { installationId := "inst"
      streamKey := "thread"
      phase := .live
      liveCursor := some "p1"
      mediaPending := false
      generation := 1
      updatedAt := 0 }

/-- The lease stays at `p1`, but the sync state moves to `p2`, and `p2` is what the
connector is handed next. -/
theorem polls_skip_failed_page :
    ¬ Along (pollAndRemember "inst" "thread")
        (SkipsNoPage "inst" "thread") atFirstPage [failedLivePoll] ∧
      (pollAndRemember "inst" "thread" atFirstPage failedLivePoll).lease = some "p1" ∧
      handedCursor .live (pollAndRemember "inst" "thread" atFirstPage failedLivePoll) =
        some "p2" := by
  refine ⟨?_, by decide, by decide⟩
  rintro ⟨hskips, _⟩
  have hkept := hskips
    { records := [⟨"message", .retryableFailure, none, some .internalError⟩]
      nextCursor := some "p2" } "p2" rfl rfl (by decide)
  have hmoved : atFirstPage.live = some "p2" := hkept.live (by decide)
  revert hmoved
  decide

end Regenic.Sync
