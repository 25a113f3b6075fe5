import Regenic.Sync.Poll

/-!
Runs of poll outcomes folded into the sync state of one stream: which polls move its
phase, and which page may write which cursor.
-/

namespace Regenic.Sync

open Lib

/-- What the polls of a stream brought. An error may come with or without pages. -/
structure SyncPollRunSummary where
  pages : List ConnectorPollRunResult
  error : Bool := false
  deriving DecidableEq, Repr

structure SyncPollRunItem where
  older : Bool
  media : Bool
  idleMs : Option Int := none
  pollHint : Option SyncPollHint := none
  cursorKind : Option CursorKind := none
  historyPolicy : Option HistoryPolicy := none
  phase : Option SyncPhase := none
  historyCursor : Option String := none
  deriving DecidableEq, Repr

/-- The last hint that a page reported. -/
def reportedHint (pages : List PollPage) : Option SyncPollHint :=
  (pages.reverse.find? (·.pollHint.isSome)).bind (·.pollHint)

variable (installationId streamKey : String)

def syncPageOutcomeFromPollRuns (item : SyncPollRunItem) (runs : SyncPollRunSummary)
    (now : Instant) : SyncPageOutcome :=
  let pages := runs.pages.filterMap (·.page?)
  let nextCursor := pages.getLast?.bind (·.nextCursor)
  let pollHint := reportedHint pages <|> item.pollHint
  let historyPending := pollHint.any (·.historyPending = some true)
  let kind := item.cursorKind.getD (if item.older then .history else .live)
  let policy := item.historyPolicy.getD .backfill
  let write := cursorWriteFor kind (kind = .live &&
    shouldSeedHistoryCursor policy item.phase item.historyCursor historyPending)
  let results := pages.flatMap (·.records)
  { installationId
    streamKey
    older := item.older
    media := item.media
    acceptedCount := results.countP (·.status = .accepted)
    quarantinedCount := results.countP (·.status = .quarantined)
    hasMore := sameLaneContinues kind (pages.any (·.hasMore = some true)) historyPending
    nextLiveCursor := if write.live then nextCursor else none
    nextHistoryCursor := if write.history then nextCursor else none
    mediaPending := pages.getLast?.bind (·.mediaPending)
    idleMs := item.idleMs
    pollHint
    cursorKind := kind
    historyPolicy := policy
    error := runs.error
    now }

/-- What a caller had read of the stream when the poll began. -/
structure SyncPrior where
  phase : Option SyncPhase
  historyCursor : Option String
  deriving DecidableEq, Repr

/-- One poll of the stream. A `prior` of none is read from the row just before the poll
is folded; a caller may also hold an older one. -/
structure StreamPoll where
  prior : Option SyncPrior := none
  policy : Option HistoryPolicy := none
  older : Bool := false
  before : Option String := none
  media : Bool := false
  idleMs : Option Int := none
  runs : SyncPollRunSummary
  now : Instant
  deriving DecidableEq, Repr

namespace StreamPoll

def kind (poll : StreamPoll) : CursorKind := cursorKindFromPoll poll.older poll.before

def historyPolicy (poll : StreamPoll) : HistoryPolicy := poll.policy.getD .backfill

def hint (poll : StreamPoll) : Option SyncPollHint :=
  reportedHint (poll.runs.pages.filterMap (·.page?))

def priorTo (poll : StreamPoll) (stored : Option SyncStreamState) : SyncPrior :=
  poll.prior.getD
    { phase := stored.map (·.phase), historyCursor := stored.bind (·.historyCursor) }

/-- `syncOutcomeForPoll` on the poll. -/
def outcome (poll : StreamPoll) (stored : Option SyncStreamState) : SyncPageOutcome :=
  syncPageOutcomeFromPollRuns installationId streamKey
    { older := poll.older
      media := poll.media
      idleMs := poll.idleMs
      cursorKind := some poll.kind
      historyPolicy := some poll.historyPolicy
      phase := (poll.priorTo stored).phase
      historyCursor := (poll.priorTo stored).historyCursor }
    poll.runs poll.now

end StreamPoll

def foldPoll (stored : Option SyncStreamState) (poll : StreamPoll) : Option SyncStreamState :=
  some (advanceSyncState stored (poll.outcome installationId streamKey stored))

/-- A poll that loses its pages when it throws is one of these. -/
theorem syncOutcomeForPoll_eq (prior : Option SyncStreamState) (input : PollInput)
    (runs : Option (List ConnectorPollRunResult)) :
    syncOutcomeForPoll installationId streamKey prior input runs =
      StreamPoll.outcome installationId streamKey
        { policy := some input.policy
          older := input.older
          before := input.before
          media := input.media
          idleMs := input.idleMs
          runs := { pages := runs.getD [], error := runs.isNone }
          now := input.now }
        prior := by
  have hhint : ∀ pages : List PollPage, (reportedHint pages <|> none) =
      (pages.reverse.find? (·.pollHint.isSome)).bind (·.pollHint) := by
    intro pages
    simp [reportedHint]
  unfold StreamPoll.outcome syncPageOutcomeFromPollRuns
  simp only [hhint]
  rfl

/-- A stream without a row is unseeded. -/
def storedPhase (stored : Option SyncStreamState) : SyncPhase :=
  (stored.map (·.phase)).getD .unseeded

/-! ## What one poll leaves -/

variable {installationId streamKey}

section OnePoll

variable (stored : Option SyncStreamState) (poll : StreamPoll)

@[simp] theorem outcome_pollHint :
    (poll.outcome installationId streamKey stored).pollHint = poll.hint := by
  simp [StreamPoll.outcome, syncPageOutcomeFromPollRuns, StreamPoll.hint]

@[simp] theorem outcome_cursorKind :
    (poll.outcome installationId streamKey stored).cursorKind = poll.kind := rfl

@[simp] theorem outcome_historyPolicy :
    (poll.outcome installationId streamKey stored).historyPolicy = poll.historyPolicy := rfl

@[simp] theorem outcome_error :
    (poll.outcome installationId streamKey stored).error = poll.runs.error := rfl

@[simp] theorem outcome_idleMs :
    (poll.outcome installationId streamKey stored).idleMs = poll.idleMs := rfl

@[simp] theorem outcome_now :
    (poll.outcome installationId streamKey stored).now = poll.now := rfl

theorem outcome_nextLiveCursor (h : poll.kind ≠ .live) :
    (poll.outcome installationId streamKey stored).nextLiveCursor = none := by
  simp only [StreamPoll.outcome, syncPageOutcomeFromPollRuns, Option.getD_some]
  cases hkind : poll.kind with
  | live => exact absurd hkind h
  | history => simp [cursorWriteFor]
  | scroll => simp [cursorWriteFor]

end OnePoll

/-- Bootstrap has finished: the stream is on its live tail. -/
def SyncPhase.caughtUp : SyncPhase → Bool
  | .live | .steady => true
  | .unseeded | .history => false

theorem SyncPhase.caughtUp_ite (idles : Prop) [Decidable idles] :
    (if idles then SyncPhase.steady else .live).caughtUp = true := by
  split <;> rfl

section Derivation

variable {hint : SyncPollHint} {idleUntil : Option Instant} {now : Instant}
  {guard : SyncPhaseGuard}

/-- A hint never takes a backfill stream off its live tail. -/
theorem deriveSyncPhaseFromHint_caughtUp {phase : SyncPhase}
    (hpolicy : guard.policy = .backfill) (hfallback : guard.fallback = some phase)
    (hphase : phase.caughtUp) :
    (deriveSyncPhaseFromHint hint idleUntil now guard).caughtUp := by
  obtain ⟨fallback, policy, kind⟩ := guard
  cases hpolicy
  cases hfallback
  cases phase with
  | unseeded => cases hphase
  | history => cases hphase
  | live =>
    have htail : (if hint.liveSeeded = some false then SyncPhase.live
        else if idlesPast idleUntil now then .steady else .live).caughtUp = true := by
      split
      · rfl
      · exact SyncPhase.caughtUp_ite _
    cases kind with
    | live => simpa [deriveSyncPhaseFromHint] using htail
    | history => simpa [deriveSyncPhaseFromHint] using htail
    | scroll => rfl
  | steady =>
    cases kind <;> simp [deriveSyncPhaseFromHint, SyncPhase.caughtUp]

/-- A hint ends the history of a backfill stream only on a history page. -/
theorem deriveSyncPhaseFromHint_history (hpolicy : guard.policy = .backfill)
    (hfallback : guard.fallback = some .history)
    (hleft : deriveSyncPhaseFromHint hint idleUntil now guard ≠ .history) :
    guard.cursorKind = .history ∧
      (hint.liveSeeded = some false ∧
          deriveSyncPhaseFromHint hint idleUntil now guard = .unseeded ∨
        hint.historyPending ≠ some true ∧
          (deriveSyncPhaseFromHint hint idleUntil now guard).caughtUp) := by
  obtain ⟨fallback, policy, kind⟩ := guard
  cases hpolicy
  cases hfallback
  cases kind with
  | live => exact absurd (by simp [deriveSyncPhaseFromHint]) hleft
  | scroll => exact absurd rfl hleft
  | history =>
    constructor
    · rfl
    · by_cases hseeded : hint.liveSeeded = some false
      · left
        exact ⟨hseeded, by simp [deriveSyncPhaseFromHint, hseeded]⟩
      · right
        by_cases hpending : hint.historyPending = some true
        · exact absurd (by simp [deriveSyncPhaseFromHint, hseeded, hpending]) hleft
        · refine ⟨hpending, ?_⟩
          have hlive : (if idlesPast idleUntil now then SyncPhase.steady
              else .live).caughtUp = true := SyncPhase.caughtUp_ite _
          simpa [deriveSyncPhaseFromHint, hseeded, hpending] using hlive

/-- Without a hint a stream that has a live cursor keeps its side. -/
theorem deriveSyncPhase_none {liveCursor : Option String} {phase : SyncPhase}
    (hfallback : guard.fallback = some phase) (hcursor : streamCursorUnseeded liveCursor = false) :
    deriveSyncPhase liveCursor idleUntil none now guard =
      if phase.caughtUp ∧ idlesPast idleUntil now then .steady else phase := by
  simp only [deriveSyncPhase, hcursor, hfallback, Bool.false_eq_true, if_false]
  cases phase <;> simp [SyncPhase.caughtUp]

end Derivation

/-! ## Runs never regress -/

section Regress

variable (installationId streamKey)

/-- The poll ended without an error and without a hint, and no live cursor is stored
after it. -/
def StreamPoll.leavesNoCursor (poll : StreamPoll) (stored : Option SyncStreamState) : Prop :=
  poll.runs.error = false ∧ poll.hint = none ∧
    streamCursorUnseeded ((foldPoll installationId streamKey stored poll).bind (·.liveCursor)) =
      true

instance (poll : StreamPoll) (stored : Option SyncStreamState) :
    Decidable (poll.leavesNoCursor installationId streamKey stored) :=
  inferInstanceAs (Decidable (_ ∧ _))

/-- A history page came back and its hint does not report more history. -/
def StreamPoll.finishesHistory (poll : StreamPoll) : Prop :=
  poll.runs.error = false ∧ poll.kind = .history ∧
    poll.hint.any (·.historyPending ≠ some true) = true

/-- A history page came back whose hint says that the live tail is not seeded. -/
def StreamPoll.unseedsHistory (poll : StreamPoll) : Prop :=
  poll.runs.error = false ∧ poll.kind = .history ∧
    poll.hint.any (·.liveSeeded = some false) = true

/-- A poll moves a phase forward only: a caught-up stream stays caught up, and a history
page that reports the end is the only way out of history. -/
structure NeverRegresses (stored : Option SyncStreamState) (poll : StreamPoll) : Prop where
  caughtUp : (storedPhase stored).caughtUp →
    (storedPhase (foldPoll installationId streamKey stored poll)).caughtUp
  history : storedPhase stored = .history →
    storedPhase (foldPoll installationId streamKey stored poll) ≠ .history →
    (storedPhase (foldPoll installationId streamKey stored poll)).caughtUp ∧ poll.finishesHistory

/-- The law the code keeps: a stream also starts over, as unseeded, when a poll without
a hint leaves it no live cursor, or when a history page reports an unseeded tail. -/
structure RegressesOnlyUnseeded (stored : Option SyncStreamState) (poll : StreamPoll) :
    Prop where
  caughtUp : (storedPhase stored).caughtUp →
    (storedPhase (foldPoll installationId streamKey stored poll)).caughtUp ∨
      storedPhase (foldPoll installationId streamKey stored poll) = .unseeded ∧
        poll.leavesNoCursor installationId streamKey stored
  history : storedPhase stored = .history →
    storedPhase (foldPoll installationId streamKey stored poll) ≠ .history →
    (storedPhase (foldPoll installationId streamKey stored poll)).caughtUp ∧
        poll.finishesHistory ∨
      storedPhase (foldPoll installationId streamKey stored poll) = .unseeded ∧
        (poll.leavesNoCursor installationId streamKey stored ∨ poll.unseedsHistory)

theorem storedPhase_foldPoll (stored : Option SyncStreamState) (poll : StreamPoll) :
    storedPhase (foldPoll installationId streamKey stored poll) =
      if poll.runs.error then (stored.map (·.phase)).getD .live
      else deriveSyncPhase
        ((foldPoll installationId streamKey stored poll).bind (·.liveCursor))
        ((foldPoll installationId streamKey stored poll).bind (·.idleUntil))
        poll.hint poll.now
        { fallback := stored.map (·.phase)
          policy := poll.historyPolicy
          cursorKind := poll.kind } := by
  simp only [foldPoll, storedPhase, Option.map_some, Option.getD_some, Option.bind_some,
    advanceSyncState, outcome_error, outcome_pollHint, outcome_now, outcome_historyPolicy,
    outcome_cursorKind]

/-- One poll of a backfill stream. -/
theorem foldPoll_regressesOnlyUnseeded (stored : Option SyncStreamState) (poll : StreamPoll)
    (hpolicy : poll.historyPolicy = .backfill) :
    RegressesOnlyUnseeded installationId streamKey stored poll := by
  have hphase := storedPhase_foldPoll installationId streamKey stored poll
  cases stored with
  | none => exact ⟨fun h => absurd h (by decide), fun h => absurd h (by decide)⟩
  | some row =>
    cases herror : poll.runs.error with
    | true =>
      have hkept : storedPhase (foldPoll installationId streamKey (some row) poll) =
          storedPhase (some row) := by
        rw [hphase, herror]
        rfl
      exact ⟨fun h => Or.inl (hkept ▸ h), fun h hleft => absurd (hkept.trans h) hleft⟩
    | false =>
      rw [herror, if_neg Bool.false_ne_true] at hphase
      cases hhint : poll.hint with
      | some hint =>
        rw [hhint] at hphase
        constructor
        · intro hcaught
          left
          rw [hphase]
          exact deriveSyncPhaseFromHint_caughtUp hpolicy rfl hcaught
        · intro hhistory hleft
          rw [hphase] at hleft
          obtain ⟨hkind, hends⟩ := deriveSyncPhaseFromHint_history hpolicy
            (congrArg some hhistory) hleft
          rw [hphase]
          rcases hends with ⟨hseeded, hunseeded⟩ | ⟨hpending, hcaught⟩
          · exact Or.inr ⟨hunseeded, Or.inr ⟨herror, hkind, by simp [hhint, hseeded]⟩⟩
          · exact Or.inl ⟨hcaught, herror, hkind, by simp [hhint, hpending]⟩
      | none =>
        rw [hhint] at hphase
        cases hcursor : streamCursorUnseeded
            ((foldPoll installationId streamKey (some row) poll).bind (·.liveCursor)) with
        | true =>
          have hunseeded : storedPhase (foldPoll installationId streamKey (some row) poll) =
              .unseeded := by
            rw [hphase]
            simp [deriveSyncPhase, hcursor]
          have hnone : poll.leavesNoCursor installationId streamKey (some row) :=
            ⟨herror, hhint, hcursor⟩
          exact ⟨fun _ => Or.inr ⟨hunseeded, hnone⟩,
            fun _ _ => Or.inr ⟨hunseeded, Or.inl hnone⟩⟩
        | false =>
          rw [deriveSyncPhase_none rfl hcursor] at hphase
          constructor
          · intro hcaught
            left
            rw [hphase]
            split
            · rfl
            · exact hcaught
          · intro hhistory hleft
            have hrow : row.phase = .history := hhistory
            rw [hphase] at hleft
            simp [hrow, SyncPhase.caughtUp] at hleft

/-- While no poll loses the live cursor, a caught-up stream stays caught up. -/
theorem run_caughtUp (polls : List StreamPoll)
    (hpolicy : ∀ poll ∈ polls, poll.historyPolicy = .backfill)
    (stored : Option SyncStreamState) (hcaught : (storedPhase stored).caughtUp)
    (hcursor : Along (foldPoll installationId streamKey)
      (fun stored poll => ¬ poll.leavesNoCursor installationId streamKey stored) stored polls) :
    (storedPhase (run (foldPoll installationId streamKey) stored polls)).caughtUp := by
  induction polls generalizing stored with
  | nil => exact hcaught
  | cons poll rest ih =>
    have hhead := (foldPoll_regressesOnlyUnseeded installationId streamKey stored poll (hpolicy poll List.mem_cons_self)).caughtUp hcaught
    rcases hhead with hnext | ⟨_, hlost⟩
    · exact ih (fun other hmem => hpolicy other (List.mem_cons_of_mem poll hmem)) _ hnext hcursor.2
    · exact absurd hlost hcursor.1

theorem along_regressesOnlyUnseeded (polls : List StreamPoll)
    (hpolicy : ∀ poll ∈ polls, poll.historyPolicy = .backfill)
    (stored : Option SyncStreamState) :
    Along (foldPoll installationId streamKey)
      (RegressesOnlyUnseeded installationId streamKey) stored polls := by
  induction polls generalizing stored with
  | nil => trivial
  | cons poll rest ih =>
    constructor
    · exact foldPoll_regressesOnlyUnseeded installationId streamKey stored poll (hpolicy poll List.mem_cons_self)
    · exact ih (fun other hmem => hpolicy other (List.mem_cons_of_mem poll hmem)) _

/-- In every run of a backfill stream, phases move forward or start over as unseeded;
and as long as no poll loses the live cursor, a caught-up stream stays caught up. -/
theorem phase_regressesOnlyUnseeded (polls : List StreamPoll)
    (hpolicy : ∀ poll ∈ polls, poll.historyPolicy = .backfill)
    (stored : Option SyncStreamState) :
    Along (foldPoll installationId streamKey)
        (RegressesOnlyUnseeded installationId streamKey) stored polls ∧
      ((storedPhase stored).caughtUp →
        Along (foldPoll installationId streamKey)
          (fun stored poll => ¬ poll.leavesNoCursor installationId streamKey stored)
          stored polls →
        (storedPhase (run (foldPoll installationId streamKey) stored polls)).caughtUp) :=
  ⟨along_regressesOnlyUnseeded installationId streamKey polls hpolicy stored,
    run_caughtUp installationId streamKey polls hpolicy stored⟩

/-- A first poll that fails, and one that meets a lease of another owner. -/
def failedThenLeased : List StreamPoll :=
  [{ runs := { pages := [], error := true }, now := 1 },
    { runs := { pages := [.skipped .leaseUnavailable] }, now := 2 }]

theorem phase_regressesOnlyUnseeded_leased :
    RegressesOnlyUnseeded "inst" "thread" none
      { runs := { pages := [], error := true }, now := 1 } :=
  (phase_regressesOnlyUnseeded "inst" "thread" failedThenLeased (by decide) none).1.1

/-- The failed poll stores `live` without a cursor, and the next one stores `unseeded`. -/
theorem phase_regresses :
    ¬ Along (foldPoll "inst" "thread") (NeverRegresses "inst" "thread") none
      failedThenLeased := by
  rintro ⟨_, hsecond, _⟩
  have hcaught := hsecond.caughtUp (by decide)
  revert hcaught
  decide

end Regress

/-! ## One writer for each cursor -/

section Writers

variable (installationId streamKey)

/-- A live page taken while the stream is unseeded, of a backfill installation, whose
hint reports history while no history cursor is stored. -/
def StreamPoll.seedsHistory (poll : StreamPoll) (stored : Option SyncStreamState) : Prop :=
  poll.kind = .live ∧ (poll.priorTo stored).phase.all (· = .unseeded) = true ∧
    poll.historyPolicy = .backfill ∧ poll.hint.any (·.historyPending = some true) = true ∧
    (present ((poll.priorTo stored).historyCursor.map jsTrim)).isNone = true

/-- Each cursor has its writer, and a scroll page moves nothing. -/
structure OneWriter (stored : Option SyncStreamState) (poll : StreamPoll) : Prop where
  live : (foldPoll installationId streamKey stored poll).bind (·.liveCursor) ≠
    stored.bind (·.liveCursor) → poll.kind = .live
  history : (foldPoll installationId streamKey stored poll).bind (·.historyCursor) ≠
    stored.bind (·.historyCursor) → poll.kind = .history ∨ poll.seedsHistory stored
  scroll : poll.kind = .scroll →
    (foldPoll installationId streamKey stored poll).bind (·.liveCursor) =
        stored.bind (·.liveCursor) ∧
      (foldPoll installationId streamKey stored poll).bind (·.historyCursor) =
        stored.bind (·.historyCursor) ∧
      storedPhase (foldPoll installationId streamKey stored poll) = storedPhase stored

/-- Where a scroll page leaves the phase. With a hint, an unseeded stream has to be
reported unseeded. Without one, a stream without a live cursor has to be unseeded, and a
live stream must not idle. -/
def StreamPoll.scrollsInPlace (poll : StreamPoll) (stored : Option SyncStreamState) : Prop :=
  poll.kind = .scroll →
    if poll.hint.isSome then
      storedPhase stored = .unseeded → poll.hint.any (·.liveSeeded = some false) = true
    else if streamCursorUnseeded (stored.bind (·.liveCursor)) then
      storedPhase stored = .unseeded
    else storedPhase stored = .live →
      ¬ (poll.idleMs.any (0 < ·) = true ∨ idlesPast (stored.bind (·.idleUntil)) poll.now = true)

instance (poll : StreamPoll) (stored : Option SyncStreamState) :
    Decidable (poll.scrollsInPlace stored) :=
  inferInstanceAs (Decidable (_ → _))

section Fold

variable (stored : Option SyncStreamState) (poll : StreamPoll)

theorem foldPoll_liveCursor :
    (foldPoll installationId streamKey stored poll).bind (·.liveCursor) =
      ((poll.outcome installationId streamKey stored).nextLiveCursor <|>
        stored.bind (·.liveCursor)) := rfl

theorem foldPoll_historyCursor :
    (foldPoll installationId streamKey stored poll).bind (·.historyCursor) =
      ((poll.outcome installationId streamKey stored).nextHistoryCursor <|>
        stored.bind (·.historyCursor)) := rfl

theorem outcome_nextHistoryCursor
    (h : (poll.outcome installationId streamKey stored).nextHistoryCursor ≠ none) :
    poll.kind = .history ∨ poll.seedsHistory stored := by
  simp only [StreamPoll.outcome, syncPageOutcomeFromPollRuns, Option.getD_some] at h
  cases hkind : poll.kind with
  | history => exact Or.inl rfl
  | scroll => simp [hkind, cursorWriteFor] at h
  | live =>
    right
    simp only [hkind, cursorWriteFor, decide_true, Bool.true_and, ne_eq,
      ite_eq_right_iff, not_forall] at h
    obtain ⟨hseed, _⟩ := h
    have hhint : ∀ pages : List PollPage, (reportedHint pages <|> none) =
        reportedHint pages := by
      intro pages
      simp
    simp only [hhint, shouldSeedHistoryCursor] at hseed
    split at hseed
    · cases hseed
    · next hpolicy =>
      split at hseed
      · cases hseed
      · next hcursor =>
        simp only [ne_eq, Bool.or_eq_true, decide_eq_true_eq, Bool.not_eq_true',
          not_or, not_not, Bool.not_eq_false] at hpolicy
        refine ⟨hkind, hseed, hpolicy.1, hpolicy.2, ?_⟩
        simpa [Option.isNone_iff_eq_none] using hcursor

/-- A scroll page has no cursor to store. -/
theorem foldPoll_scroll_cursors (hkind : poll.kind = .scroll) :
    (foldPoll installationId streamKey stored poll).bind (·.liveCursor) =
        stored.bind (·.liveCursor) ∧
      (foldPoll installationId streamKey stored poll).bind (·.historyCursor) =
        stored.bind (·.historyCursor) := by
  constructor
  · rw [foldPoll_liveCursor, outcome_nextLiveCursor stored poll (by simp [hkind])]
    rfl
  · rw [foldPoll_historyCursor]
    cases hnext : (poll.outcome installationId streamKey stored).nextHistoryCursor with
    | none => rfl
    | some cursor =>
      rcases outcome_nextHistoryCursor installationId streamKey stored poll (by simp [hnext]) with hhistory | hseeds
      · exact absurd (hkind.symm.trans hhistory) (by decide)
      · exact absurd (hkind.symm.trans hseeds.1) (by decide)

/-- A scroll page never continues, so it idles as the caller asked or as stored. -/
theorem foldPoll_scroll_idles (hkind : poll.kind = .scroll) (herror : poll.runs.error = false) :
    idlesPast ((foldPoll installationId streamKey stored poll).bind (·.idleUntil)) poll.now =
      (poll.idleMs.any (0 < ·) || idlesPast (stored.bind (·.idleUntil)) poll.now) := by
  simp only [foldPoll, Option.bind_some, advanceSyncState, outcome_error, herror,
    outcome_cursorKind, hkind, sameLaneContinues, outcome_idleMs, outcome_now]
  cases hidle : poll.idleMs with
  | none => simp
  | some idleMs =>
    by_cases hpositive : 0 < idleMs
    · have hfilter : (some idleMs).filter (fun ms => decide (ms > 0)) = some idleMs := by
        simp [Option.filter, hpositive]
      have hwhole : (some idleMs).filter (fun _ => true) = some idleMs := rfl
      have hlater : poll.now < poll.now + idleMs := Int.lt_add_of_pos_right _ hpositive
      simp [hfilter, hwhole, idlesPast, hpositive, hlater]
    · have hfilter : (some idleMs).filter (fun ms => decide (ms > 0)) = none := by
        simp [Option.filter, hpositive]
      simp [hfilter, hpositive]

end Fold

theorem deriveSyncPhaseFromHint_scroll_unseeded {hint : SyncPollHint}
    {idleUntil : Option Instant} {now : Instant} {guard : SyncPhaseGuard}
    (hkind : guard.cursorKind = .scroll)
    (hfallback : guard.fallback.getD .unseeded = .unseeded) :
    deriveSyncPhaseFromHint hint idleUntil now guard = .unseeded ↔
      hint.liveSeeded = some false := by
  obtain ⟨fallback, policy, kind⟩ := guard
  cases hkind
  have hcases : fallback = none ∨ fallback = some .unseeded := by
    cases fallback with
    | none => exact Or.inl rfl
    | some phase => exact Or.inr (congrArg some hfallback)
  rcases hcases with rfl | rfl <;>
    cases policy <;>
      by_cases hseeded : hint.liveSeeded = some false <;>
        simp [deriveSyncPhaseFromHint, hseeded] <;> split_ifs <;> simp

/-- With a hint, a scroll page keeps every stored phase but `unseeded`. -/
theorem deriveSyncPhaseFromHint_scroll {hint : SyncPollHint}
    {idleUntil : Option Instant} {now : Instant} {guard : SyncPhaseGuard} {phase : SyncPhase}
    (hkind : guard.cursorKind = .scroll) (hfallback : guard.fallback = some phase)
    (hphase : phase ≠ .unseeded) : deriveSyncPhaseFromHint hint idleUntil now guard = phase := by
  obtain ⟨fallback, policy, kind⟩ := guard
  cases hkind
  cases hfallback
  cases phase with
  | unseeded => exact absurd rfl hphase
  | live => rfl
  | history => rfl
  | steady => rfl

/-- Exactly where a scroll page leaves the phase. -/
theorem foldPoll_scroll_phase (stored : Option SyncStreamState) (poll : StreamPoll)
    (herror : poll.runs.error = false) (hkind : poll.kind = .scroll) :
    storedPhase (foldPoll installationId streamKey stored poll) = storedPhase stored ↔
      poll.scrollsInPlace stored := by
  have hcursor := (foldPoll_scroll_cursors installationId streamKey stored poll hkind).1
  have hidles := foldPoll_scroll_idles installationId streamKey stored poll hkind herror
  have hphase := storedPhase_foldPoll installationId streamKey stored poll
  rw [herror, if_neg Bool.false_ne_true, hcursor] at hphase
  unfold StreamPoll.scrollsInPlace
  simp only [hkind, forall_const]
  cases hhint : poll.hint with
  | some hint =>
    rw [hhint] at hphase
    simp only [deriveSyncPhase, hkind] at hphase
    simp only [Option.isSome_some, if_true, Option.any_some, decide_eq_true_eq]
    by_cases hunseeded : storedPhase stored = .unseeded
    · have hfallback : (stored.map (·.phase)).getD .unseeded = .unseeded := hunseeded
      rw [hunseeded, hphase, deriveSyncPhaseFromHint_scroll_unseeded rfl hfallback]
      simp
    · have hsame : storedPhase (foldPoll installationId streamKey stored poll) =
          storedPhase stored := by
        cases stored with
        | none => exact absurd rfl hunseeded
        | some row => exact hphase.trans (deriveSyncPhaseFromHint_scroll rfl rfl hunseeded)
      simp [hsame, hunseeded]
  | none =>
    rw [hhint] at hphase
    simp only [Option.isSome_none, Bool.false_eq_true, if_false]
    cases hblank : streamCursorUnseeded (stored.bind (·.liveCursor)) with
    | true =>
      have hunseeded : storedPhase (foldPoll installationId streamKey stored poll) =
          .unseeded := by
        rw [hphase]
        simp [deriveSyncPhase, hblank]
      rw [hunseeded]
      simp [eq_comm]
    | false =>
      cases stored with
      | none => exact absurd hblank (by decide)
      | some row =>
        rw [deriveSyncPhase_none rfl hblank, hidles] at hphase
        have hrow : storedPhase (some row) = row.phase := rfl
        rw [hphase, hrow]
        cases hstored : row.phase <;> simp [hstored, SyncPhase.caughtUp]

theorem foldPoll_oneWriter_iff (stored : Option SyncStreamState) (poll : StreamPoll)
    (herror : poll.runs.error = false) :
    OneWriter installationId streamKey stored poll ↔ poll.scrollsInPlace stored := by
  constructor
  · intro hwriter hkind
    have hphase := (hwriter.scroll hkind).2.2
    exact (foldPoll_scroll_phase installationId streamKey stored poll herror hkind).mp hphase hkind
  · intro hscroll
    constructor
    · intro hmoved
      apply Classical.byContradiction
      intro hkind
      rw [foldPoll_liveCursor, outcome_nextLiveCursor stored poll hkind] at hmoved
      exact hmoved rfl
    · intro hmoved
      apply outcome_nextHistoryCursor installationId streamKey stored poll
      intro hnone
      rw [foldPoll_historyCursor, hnone] at hmoved
      exact hmoved rfl
    · intro hkind
      obtain ⟨hlive, hhistory⟩ := foldPoll_scroll_cursors installationId streamKey stored poll hkind
      exact ⟨hlive, hhistory, (foldPoll_scroll_phase installationId streamKey stored poll herror hkind).mpr hscroll⟩

/-- In every run of polls without errors, each cursor has one writer and scroll pages
move nothing exactly when every scroll page of the run finds its phase in place. -/
theorem cursors_oneWriter_iff (polls : List StreamPoll)
    (herrors : ∀ poll ∈ polls, poll.runs.error = false) (stored : Option SyncStreamState) :
    Along (foldPoll installationId streamKey) (OneWriter installationId streamKey)
        stored polls ↔
      Along (foldPoll installationId streamKey) (fun stored poll => poll.scrollsInPlace stored)
        stored polls := by
  induction polls generalizing stored with
  | nil => exact Iff.rfl
  | cons poll rest ih =>
    have hhead := foldPoll_oneWriter_iff installationId streamKey stored poll (herrors poll List.mem_cons_self)
    exact and_congr hhead
      (ih (fun other hmem => herrors other (List.mem_cons_of_mem poll hmem)) _)

/-- Scrolling up in a thread that no live page has seeded yet. -/
def unseededScroll : StreamPoll where
  before := some "m1"
  runs :=
    { pages :=
        [.completed
          { records := []
            pollHint := some { liveSeeded := some true, historyPending := some false } }] }
  now := 1

theorem cursors_oneWriter_iff_scroll :
    Along (foldPoll "inst" "thread") (OneWriter "inst" "thread")
        atFirstPage.sync [unseededScroll] ↔
      Along (foldPoll "inst" "thread") (fun stored poll => poll.scrollsInPlace stored)
        atFirstPage.sync [unseededScroll] :=
  cursors_oneWriter_iff "inst" "thread" [unseededScroll] (by decide) _

/-- The scroll page turns the unseeded stream live. -/
theorem cursors_scroll_movesPhase :
    ¬ Along (foldPoll "inst" "thread") (OneWriter "inst" "thread") none [unseededScroll] := by
  rintro ⟨hwriter, _⟩
  have hphase := (hwriter.scroll (by decide)).2.2
  revert hphase
  decide

end Writers

end Regenic.Sync
