import Regenic.Customer.Continued

/-!
Reading a conversation through: each call takes the handle that the call before it gave. The
calls give the messages on the side of the boundary page by page, each once, and the last one
gives no handle exactly when nothing is left, unless the stored body of one of these messages
cannot be read.
-/

namespace Regenic.Customer

open Lib
open Context (AuthorityEvent)

/-! ## Bodies that cannot be read -/

/-- A message whose stored body stops the reader that comes to it. -/
def Broken (store : ThreadStore) (event : AuthorityEvent) : Prop :=
  ∃ thrown, messageText store event = .error thrown

section Broken

variable {store : ThreadStore} {events page : List AuthorityEvent} {snapshotId : String}
  {reason : ContextSelectionReason}

theorem not_broken_iff {event : AuthorityEvent} :
    ¬Broken store event ↔ ∃ made, evidenceOf store events snapshotId reason event = .ok made := by
  unfold Broken evidenceOf
  cases messageText store event with
  | error thrown =>
    constructor
    · intro h
      exact absurd ⟨thrown, rfl⟩ h
    · rintro ⟨made, hmade⟩
      cases hmade
  | ok text =>
    constructor
    · intro _
      exact ⟨_, rfl⟩
    · rintro _ ⟨thrown, hthrown⟩
      cases hthrown

/-- Evidence is made of messages exactly when all their bodies can be read. -/
theorem materializeEvidence_ok_iff :
    (∃ evidence, materializeEvidence store page snapshotId reason = .ok evidence) ↔
      ∀ event ∈ page, ¬Broken store event := by
  have hmade : (∃ evidence, materializeEvidence store page snapshotId reason = .ok evidence) ↔
      ∃ made, page.mapM (evidenceOf store page snapshotId reason) = .ok made := by
    unfold materializeEvidence
    constructor
    · rintro ⟨evidence, h⟩
      obtain ⟨made, hmade, -⟩ := sequence_ok h
      exact ⟨made, hmade⟩
    · rintro ⟨made, hmade⟩
      rw [hmade]
      exact ⟨_, rfl⟩
  rw [hmade, exists_mapM_iff]
  constructor
  · intro h event hevent
    exact not_broken_iff.mpr (h event hevent)
  · intro h event hevent
    exact not_broken_iff.mp (h event hevent)

end Broken

/-! ## Calls one after another -/

section Reading

variable (world : ReadingWorld) (taskId : String)

def readPage (s : ReadingState) (continuation : CustomerContextContinuation) (size : Nat) :
    Except CustomerThrown ReadContextResult × ReadingState :=
  world.runs (readContext world.store.options taskId
    { continuationHandle := continuation.handle, maxItems := some size }) s

/-- What the calls answer, for as long as they give a handle to go on with. -/
def readOn : ReadingState → CustomerContextContinuation → List Nat →
    List (Except CustomerThrown ReadContextResult)
  | _, _, [] => []
  | s, continuation, size :: sizes =>
    (readPage world taskId s continuation size).1 ::
      match (readPage world taskId s continuation size).1 with
      | .error _ => []
      | .ok result =>
        match result.continuations with
        | [] => []
        | next :: _ => readOn (readPage world taskId s continuation size).2 next sizes

/-- No handle has expired by the time it is used. -/
def InTime : ReadingState → CustomerContextContinuation → List Nat → Prop
  | _, _, [] => True
  | s, continuation, size :: sizes =>
    isExpired world.store.options.dateParse continuation.expiresAt (world.clock s.ticks) = false ∧
      match (readPage world taskId s continuation size).1 with
      | .error _ => True
      | .ok result =>
        match result.continuations with
        | [] => True
        | next :: _ => InTime (readPage world taskId s continuation size).2 next sizes

end Reading

/-- A call answers with the evidence of a page, and with a continuation exactly when something
is left after it. -/
def AnswersPage (store : ThreadStore) (direction : ContinuationDirection) (snapshotId : String)
    (page : List AuthorityEvent × List AuthorityEvent)
    (answer : Except CustomerThrown ReadContextResult) : Prop :=
  ∃ result, answer = .ok result ∧
    materializeEvidence store (inOrder direction page.1) snapshotId .continuation =
      .ok result.evidence ∧
    (result.continuations = [] ↔ page.2 = [])

/-- The answers are those of the pages of a side, from the nearest on: the pages put together are
the side as far as it was asked for, and nothing is left after the last of them exactly when the
whole side was asked for. -/
def ReadsThrough (store : ThreadStore) (direction : ContinuationDirection) (snapshotId : String)
    (side : List AuthorityEvent) (sizes : List Nat)
    (answers : List (Except CustomerThrown ReadContextResult)) : Prop :=
  ∃ pages, List.Forall₂ (AnswersPage store direction snapshotId) pages answers ∧
    pages = readPages sizes side ∧
    (pages.map Prod.fst).flatten = side.take sizes.sum ∧
    ∀ last, pages.getLast? = some last → (last.2 = [] ↔ side.length ≤ sizes.sum)

section Run

variable {world : ReadingWorld} {taskId : String} {thread : CurrentThread}

/-- Reading on gives the pages exactly when no body that it comes to is broken. -/
theorem readOn_pages {sizes : List Nat} (hsizes : ∀ size ∈ sizes, 1 ≤ size ∧ size ≤ 40)
    {s : ReadingState} {task : CustomerServiceTask} {continuation : CustomerContextContinuation}
    {position : Nat} (h : Continues world taskId s task continuation thread position)
    (hin : InTime world taskId s continuation sizes) :
    List.Forall₂ (AnswersPage world.store continuation.direction (lastSnapshot task))
        (readPages sizes (sideOf continuation.direction thread.events position))
        (readOn world taskId s continuation sizes) ↔
      ∀ event ∈ (sideOf continuation.direction thread.events position).take sizes.sum,
        ¬Broken world.store event := by
  induction sizes generalizing s task continuation position with
  | nil =>
    constructor
    · intro _ event hevent
      simp at hevent
    · intro _
      exact List.Forall₂.nil
  | cons size sizes ih =>
    have hsize := hsizes size List.mem_cons_self
    obtain ⟨hlive, hrest⟩ := hin
    have hsplit : (sideOf continuation.direction thread.events position).take (size :: sizes).sum =
        (sideOf continuation.direction thread.events position).take size ++
          (leftAfter continuation thread position size).take sizes.sum := by
      rw [List.sum_cons, List.take_add]
      rfl
    have hbodies : (∃ evidence, materializeEvidence world.store
          (nextPage continuation thread position size) (lastSnapshot task) .continuation =
            .ok evidence) ↔
        ∀ event ∈ (sideOf continuation.direction thread.events position).take size,
          ¬Broken world.store event := by
      rw [materializeEvidence_ok_iff]
      unfold nextPage
      simp only [mem_inOrder]
    cases hpage : materializeEvidence world.store (nextPage continuation thread position size)
        (lastSnapshot task) .continuation with
    | error thrown =>
      have hrun : readPage world taskId s continuation size =
          (.error thrown, { s with ticks := s.ticks + 1 }) :=
        readContext_error h hlive hsize hpage
      constructor
      · intro hanswers
        rw [readPages, readOn, hrun] at hanswers
        obtain ⟨result, hresult, -⟩ := (List.forall₂_cons.mp hanswers).1
        cases hresult
      · intro hnone
        obtain ⟨evidence, hevidence⟩ := hbodies.mpr fun event hevent =>
          hnone event (hsplit ▸ List.mem_append_left _ hevent)
        rw [hpage] at hevidence
        cases hevidence
    | ok evidence =>
      have hshown := hbodies.mp ⟨evidence, hpage⟩
      obtain ⟨result, s', hcall, hevidence, hend⟩ := readContext_ok h hlive hsize hpage
      have hrun : readPage world taskId s continuation size = (.ok result, s') := hcall
      rw [hrun] at hrest
      rw [readPages, readOn, hrun, hsplit]
      rcases hend with ⟨hleft, hnone⟩ |
        ⟨hleft, next, following, task', hsome, hnext, hdirection, hside, hsnapshot⟩
      · -- The page is the last one.
        have hdrop : (sideOf continuation.direction thread.events position).drop size = [] := hleft
        rw [if_pos hdrop, hleft]
        simp only [hnone]
        constructor
        · intro _ event hevent
          exact hshown event (by simpa using hevent)
        · intro _
          exact List.Forall₂.cons ⟨result, rfl, by rw [hevidence]; exact hpage,
            iff_of_true hnone hdrop⟩ List.Forall₂.nil
      · have hdrop : ¬(sideOf continuation.direction thread.events position).drop size = [] := hleft
        simp only [hsome] at hrest ⊢
        rw [if_neg hdrop]
        have hgoes := ih (fun size hin => hsizes size (List.mem_cons_of_mem _ hin)) hnext hrest
        rw [hside, hdirection, hsnapshot] at hgoes
        rw [List.forall₂_cons]
        constructor
        · rintro ⟨-, hanswers⟩ event hevent
          rcases List.mem_append.mp hevent with hnear | hfar
          · exact hshown event hnear
          · exact hgoes.mp hanswers event hfar
        · intro hnone
          refine ⟨⟨result, rfl, by rw [hevidence]; exact hpage, ?_⟩, hgoes.mpr ?_⟩
          · rw [hsome]
            exact iff_of_false (List.cons_ne_nil _ _) hdrop
          · intro event hevent
            exact hnone event (List.mem_append_right _ hevent)

/-- Reading on reads through the side exactly when no body that it comes to is broken. -/
theorem readsThrough_iff {sizes : List Nat} (hsizes : ∀ size ∈ sizes, 1 ≤ size ∧ size ≤ 40)
    {s : ReadingState} {task : CustomerServiceTask} {continuation : CustomerContextContinuation}
    {position : Nat} (h : Continues world taskId s task continuation thread position)
    (hin : InTime world taskId s continuation sizes) :
    ReadsThrough world.store continuation.direction (lastSnapshot task)
        (sideOf continuation.direction thread.events position) sizes
        (readOn world taskId s continuation sizes) ↔
      ∀ event ∈ (sideOf continuation.direction thread.events position).take sizes.sum,
        ¬Broken world.store event := by
  rw [← readOn_pages hsizes h hin]
  constructor
  · rintro ⟨pages, hpages, rfl, -⟩
    exact hpages
  · intro hpages
    exact ⟨_, hpages, rfl, flatten_readPages _ _, fun _ => readPages_end⟩

end Run

end Regenic.Customer
