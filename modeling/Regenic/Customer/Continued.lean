import Regenic.Customer.Reading

/-!
Reading a conversation on from a continuation while its messages stay as they are: a call gives
the page next to the boundary, and the handle of what is left of the conversation on that side.
-/

namespace Regenic.Customer

open Lib
open Context (AuthorityEvent)

/-! ## Pages -/

section Pages

variable {α : Type}

/-- What is left of a conversation on a side of a position, nearest first. -/
def sideOf (direction : ContinuationDirection) (events : List α) (position : Nat) : List α :=
  match direction with
  | .after => events.drop (position + 1)
  | .before => (events.take position).reverse

/-- A page in the order of the conversation. -/
def inOrder (direction : ContinuationDirection) (page : List α) : List α :=
  match direction with
  | .after => page
  | .before => page.reverse

theorem filterMap_range' (events : List α) (start count : Nat)
    (h : start + count ≤ events.length) :
    (List.range' start count).filterMap (events[·]?) = (events.drop start).take count := by
  induction count generalizing start with
  | zero => simp
  | succ count ih =>
    have hstart : start < events.length := by omega
    rw [List.range'_succ, List.filterMap_cons, List.getElem?_eq_getElem hstart,
      ih (start + 1) (by omega), ← List.getElem_cons_drop hstart, List.take_succ_cons]

theorem filter_range_between (first last count : Nat) (hfirst : first ≤ last)
    (hlast : last ≤ count) :
    ((List.range count).filter fun index => first ≤ index && index < last) =
      List.range' first (last - first) := by
  have hsplit : List.range count =
      List.range' 0 first ++ (List.range' first (last - first) ++ List.range' last (count - last)) := by
    have hmiddle := @List.range'_append_1 first (last - first) (count - last)
    have hall := @List.range'_append_1 0 first (count - first)
    rw [show first + (last - first) = last by omega,
      show last - first + (count - last) = count - first by omega] at hmiddle
    rw [Nat.zero_add, show first + (count - first) = count by omega] at hall
    rw [hmiddle, hall, List.range_eq_range']
  rw [hsplit, List.filter_append, List.filter_append]
  have hbelow : (List.range' 0 first).filter (fun index => first ≤ index && index < last) = [] := by
    apply List.filter_eq_nil_iff.mpr
    intro index hindex
    have := List.mem_range'_1.mp hindex
    simp only [Bool.and_eq_true, decide_eq_true_eq]
    omega
  have hwithin : (List.range' first (last - first)).filter
      (fun index => first ≤ index && index < last) = List.range' first (last - first) := by
    apply List.filter_eq_self.mpr
    intro index hindex
    have := List.mem_range'_1.mp hindex
    simp only [Bool.and_eq_true, decide_eq_true_eq]
    omega
  have habove : (List.range' last (count - last)).filter
      (fun index => first ≤ index && index < last) = [] := by
    apply List.filter_eq_nil_iff.mpr
    intro index hindex
    have := List.mem_range'_1.mp hindex
    simp only [Bool.and_eq_true, decide_eq_true_eq]
    omega
  rw [hbelow, hwithin, habove, List.nil_append, List.append_nil]

/-- The indexes of a page are a stretch next to the boundary. -/
theorem pageIndexes_after (position count size : Nat) (h : position < count) :
    pageIndexes .after position count size =
      List.range' (position + 1) (min size (count - (position + 1))) := by
  have hstretch := filter_range_between (position + 1)
    (position + 1 + min size (count - (position + 1))) count (by omega) (by omega)
  rw [show position + 1 + min size (count - (position + 1)) - (position + 1) =
    min size (count - (position + 1)) by omega] at hstretch
  rw [← hstretch]
  unfold pageIndexes
  apply List.filter_congr
  intro index hindex
  have hlt := List.mem_range.mp hindex
  rw [Bool.eq_iff_iff]
  simp only [Bool.and_eq_true, decide_eq_true_eq]
  omega

theorem pageIndexes_before (position count size : Nat) (h : position < count) :
    pageIndexes .before position count size =
      (List.range' (position - size) (min size position)).reverse := by
  have hstretch := filter_range_between (position - size) position count (by omega) (by omega)
  rw [show position - (position - size) = min size position by omega] at hstretch
  rw [← hstretch]
  unfold pageIndexes
  apply congrArg List.reverse
  apply List.filter_congr
  intro index hindex
  rw [Bool.eq_iff_iff]
  simp only [Bool.and_eq_true, decide_eq_true_eq]
  omega

theorem insertionSort_range' (start count : Nat) :
    (List.range' start count).insertionSort (· ≤ ·) = List.range' start count :=
  List.Pairwise.insertionSort_eq List.pairwise_le_range'

theorem insertionSort_reverse_range' (start count : Nat) :
    (List.range' start count).reverse.insertionSort (· ≤ ·) = List.range' start count := by
  apply List.Perm.eq_of_pairwise' (List.pairwise_insertionSort (· ≤ ·) _)
    List.pairwise_le_range'
  exact (List.perm_insertionSort _ _).trans (List.reverse_perm _)

/-- The page that a call reads is the nearest of what is left. -/
theorem page_eq (direction : ContinuationDirection) (events : List α) {position : Nat}
    (h : position < events.length) (size : Nat) :
    ((pageIndexes direction position events.length size).insertionSort (· ≤ ·)).filterMap
        (events[·]?) = inOrder direction ((sideOf direction events position).take size) := by
  cases direction with
  | after =>
    rw [pageIndexes_after position events.length size h, insertionSort_range',
      filterMap_range' events _ _ (by omega)]
    unfold inOrder sideOf
    rw [← List.length_drop, ← List.take_eq_take_min]
  | before =>
    rw [pageIndexes_before position events.length size h, insertionSort_reverse_range',
      filterMap_range' events _ _ (by omega)]
    unfold inOrder sideOf
    rw [List.take_reverse, List.reverse_reverse, List.length_take,
      Nat.min_eq_left (Nat.le_of_lt h), List.drop_take]
    congr 1
    omega

/-- Where the next page begins, when the page is not the last one. -/
theorem page_next (direction : ContinuationDirection) {thread : ContextThread} {events : List α}
    (hlength : thread.events.length = events.length) {position : Nat}
    (h : position < events.length) {size : Nat} (hsize : 1 ≤ size) :
    match (pageIndexes direction position events.length size).getLast? with
    | none => (sideOf direction events position).drop size = []
    | some next => next < events.length ∧
      (isLastPage direction thread next = true ↔
        (sideOf direction events position).drop size = []) ∧
      (isLastPage direction thread next = false →
        sideOf direction events next = (sideOf direction events position).drop size) := by
  cases direction with
  | after =>
    rw [pageIndexes_after position events.length size h, List.getLast?_range']
    unfold sideOf isLastPage
    rw [hlength, List.drop_drop]
    by_cases hnone : min size (events.length - (position + 1)) = 0
    · rw [if_pos hnone]
      apply List.drop_eq_nil_iff.mpr
      omega
    · rw [if_neg hnone]
      refine ⟨by omega, ?_, ?_⟩
      · rw [List.drop_eq_nil_iff, decide_eq_true_eq]
        omega
      · intro hmore
        simp only [decide_eq_false_iff_not] at hmore
        have hnext : position + 1 + min size (events.length - (position + 1)) - 1 + 1 =
            position + 1 + size := by omega
        exact congrArg (fun start => events.drop start) hnext
  | before =>
    rw [pageIndexes_before position events.length size h, List.getLast?_reverse,
      List.head?_range']
    unfold sideOf isLastPage
    rw [List.drop_reverse, List.length_take, Nat.min_eq_left (Nat.le_of_lt h), List.take_take,
      List.reverse_eq_nil_iff, List.take_eq_nil_iff]
    by_cases hnone : min size position = 0
    · rw [if_pos hnone]
      omega
    · rw [if_neg hnone]
      have hne : events ≠ [] := by
        rintro rfl
        simp at h
      refine ⟨by omega, ?_, ?_⟩
      · simp only [decide_eq_true_eq, hne, or_false]
        omega
      · intro _
        rw [Nat.min_eq_left (Nat.sub_le position size)]

end Pages

/-! ## A world whose conversations stay as they are -/

/-- The stores, the clock, the ids, and what all other calls answer. Times do not go back, a
time that is written is one, and an id is never given twice. -/
structure ReadingWorld where
  store : ThreadStore
  clock : Nat → String
  ids : Nat → String
  other : (c : CustomerCall) → c.Answer
  clock_valid : ∀ i, validTimestamp store.options.dateParse (clock i) = true
  clock_forward : ∀ {i j : Nat} (text : String), i ≤ j → clock j < text → clock i < text
  iso_valid : ∀ ms, validTimestamp store.options.dateParse (store.options.toISOString ms) = true
  ids_trimmed : ∀ i, jsTrim (ids i) = ids i
  ids_shown : ∀ i, ids i ≠ ""
  ids_injective : Function.Injective ids

/-- The stored tasks, and how many times and ids were asked for. -/
structure ReadingState where
  tasks : TaskTable
  ticks : Nat
  issued : Nat

def threadEventOf (event : AuthorityEvent) : ThreadEvent where
  id := event.id
  threadId := event.threadId.getD ""
  occurredAt := event.occurredAt

def CurrentThread.toContextThread (thread : CurrentThread) : ContextThread where
  readEpoch := thread.readEpoch
  events := thread.events.map threadEventOf

/-- The row that the coordinator has read for a message. -/
def readRow (store : ThreadStore) (event : ThreadEvent) : Option AuthorityEvent :=
  match currentThread store event.threadId with
  | .error _ => none
  | .ok thread => thread.events.find? fun row => row.id = event.id

namespace ReadingWorld

variable (world : ReadingWorld)

/-- The times and ids that are asked for next. -/
def stamps (s : ReadingState) (used : Nat) : String × String :=
  (world.clock (s.ticks + used), world.ids (s.issued + used))

def exec : (c : CustomerCall) → ReadingState → c.Answer × ReadingState
  | .getCustomerServiceTask taskId, s =>
    (getCustomerServiceTask world.store.options.dateParse s.tasks world.store.options.orgId taskId,
      s)
  | .putCustomerServiceTask task expectedRevision _, s =>
    match putCustomerServiceTask world.store.options.dateParse s.tasks task expectedRevision with
    | .error thrown => (.error thrown, s)
    | .ok (task, tasks) => (.ok task, { s with tasks })
  | .outside .now, s => (.ok (world.clock s.ticks), { s with ticks := s.ticks + 1 })
  | .outside .createId, s => (.ok (world.ids s.issued), { s with issued := s.issued + 1 })
  | .outside (.currentThread threadId), s =>
    ((currentThread world.store threadId).map CurrentThread.toContextThread, s)
  | .outside (.materializeEvidence events snapshotId), s =>
    (materializeEvidence world.store (events.filterMap (readRow world.store)) snapshotId
      .continuation, s)
  | .outside (.expandThread threadId seedIds snapshotId maxItems neighbors), s =>
    match expandThread world.store (world.stamps s) threadId seedIds snapshotId maxItems.toNat
        neighbors.toNat with
    | .error thrown => (.error thrown, s)
    | .ok window => (.ok window,
      { s with
        ticks := s.ticks + window.continuations.length
        issued := s.issued + window.continuations.length })
  | c, s => (world.other c, s)

abbrev runs {α : Type} (p : CustomerProg α) (s : ReadingState) :
    Except CustomerThrown α × ReadingState :=
  p.run world.exec s

end ReadingWorld

/-! ## Parts of a call -/

section Parts

variable {world : ReadingWorld} {s s' : ReadingState}

theorem run_ask {question : Outside} {answer : question.Answer}
    (h : world.exec (.outside question) s = (.ok answer, s')) :
    (ask question).run world.exec s = (.ok answer, s') := by
  have hperform : (Prog.perform (CustomerCall.outside question) :
      CustomerProg (Except CustomerThrown question.Answer)).run world.exec s =
        (.ok (.ok answer), s') := by
    exact congrArg (fun result => (Except.ok result.1, result.2)) h
  exact Prog.run_bind_of_ok world.exec _ hperform

theorem run_bind_congr {α β : Type} {p p' : CustomerProg α}
    (h : p.run world.exec s = p'.run world.exec s) (f : α → CustomerProg β) :
    (p.bind f).run world.exec s = (p'.bind f).run world.exec s := by
  rw [Prog.run_bind, Prog.run_bind, h]

theorem run_now : now.run world.exec s =
    (.ok (world.clock s.ticks), { s with ticks := s.ticks + 1 }) := run_ask rfl

theorem run_createId : (ask .createId).run world.exec s =
    (.ok (world.ids s.issued), { s with issued := s.issued + 1 }) := run_ask rfl

theorem getTask_run {taskId : String} {task : CustomerServiceTask}
    (hshown : nonBlank taskId = true)
    (hstored : s.tasks.get? (world.store.options.orgId, jsTrim taskId) = some task)
    (hvalid : validateCustomerServiceTask world.store.options.dateParse task = .ok task) :
    (getTask taskId).run world.exec s = (.ok task, s) := by
  have hrequired : required taskId "task_id" = .ok (jsTrim taskId) := if_pos hshown
  have hanswer : getCustomerServiceTask world.store.options.dateParse s.tasks
      world.store.options.orgId (jsTrim taskId) = .ok (some task) := by
    unfold getCustomerServiceTask
    rw [hstored]
    simp only [hvalid]
  have hperform : (Prog.perform (CustomerCall.getCustomerServiceTask (jsTrim taskId)) :
      CustomerProg (Except CustomerThrown (Option CustomerServiceTask))).run world.exec s =
        (.ok (.ok (some task)), s) := by
    exact congrArg (fun answer => (Except.ok answer, s)) hanswer
  have hfound : ((Prog.perform (CustomerCall.getCustomerServiceTask (jsTrim taskId)) :
      CustomerProg (Except CustomerThrown (Option CustomerServiceTask))).bind liftThrown).run
        world.exec s = (.ok (some task), s) :=
    Prog.run_bind_of_ok world.exec _ hperform
  unfold getTask
  rw [hrequired]
  exact Prog.run_bind_of_ok world.exec _ hfound

theorem requireMutable_open {task : CustomerServiceTask}
    (hopen : task.status ≠ .sent ∧ task.status ≠ .failed) : requireMutable task = .ok () := by
  unfold requireMutable refuseIf
  simp [hopen.1, hopen.2]

theorem liveContinuation_run {task : CustomerServiceTask}
    {continuation : CustomerContextContinuation}
    (hfound : task.continuations.find? (fun item => item.handle = continuation.handle) =
      some continuation)
    (hlive : isExpired world.store.options.dateParse continuation.expiresAt
      (world.clock s.ticks) = false) :
    (liveContinuation world.store.options task continuation.handle).run world.exec s =
      (.ok continuation, { s with ticks := s.ticks + 1 }) := by
  unfold liveContinuation
  rw [hfound]
  refine (Prog.run_bind_of_ok world.exec _ run_now).trans ?_
  rw [hlive]
  rfl

/-- A message of the conversation is told by its id. -/
theorem find?_id {store : ThreadStore} {threadId : String} {thread : CurrentThread}
    (hthread : currentThread store threadId = .ok thread) {event : AuthorityEvent}
    (hevent : event ∈ thread.events) :
    thread.events.find? (fun row => row.id = event.id) = some event := by
  obtain ⟨-, hnodup, -, -⟩ := currentThread_spec hthread
  cases hfind : thread.events.find? fun row => decide (row.id = event.id) with
  | none =>
    have hnone := List.find?_eq_none.mp hfind event hevent
    simp at hnone
  | some found =>
    have hsame : found.id = event.id := by simpa using List.find?_some hfind
    exact congrArg some
      (List.inj_on_of_nodup_map hnodup (List.mem_of_find?_eq_some hfind) hevent hsame)

theorem readRow_threadEventOf {store : ThreadStore} {threadId : String} {thread : CurrentThread}
    (hthread : currentThread store threadId = .ok thread) {event : AuthorityEvent}
    (hevent : event ∈ thread.events) :
    readRow store (threadEventOf event) = some event := by
  obtain ⟨-, -, -, hvalid⟩ := currentThread_spec hthread
  have hid : (threadEventOf event).threadId = threadId := by
    unfold threadEventOf
    rw [(hvalid event hevent).1]
    rfl
  unfold readRow
  rw [hid, hthread]
  exact find?_id hthread hevent

theorem filterMap_readRow {store : ThreadStore} {threadId : String} {thread : CurrentThread}
    (hthread : currentThread store threadId = .ok thread) {page : List AuthorityEvent}
    (hpage : ∀ event ∈ page, event ∈ thread.events) :
    (page.map threadEventOf).filterMap (readRow store) = page := by
  rw [List.filterMap_map]
  induction page with
  | nil => rfl
  | cons event rest ih =>
    have hfirst := readRow_threadEventOf hthread (hpage event List.mem_cons_self)
    rw [List.filterMap_cons, Function.comp_apply, hfirst]
    exact congrArg (event :: ·) (ih fun other hother => hpage other (List.mem_cons_of_mem _ hother))

end Parts

/-! ## One call -/

/-- The stored task has a continuation whose boundary stands at a position of the
conversation. -/
structure Continues (world : ReadingWorld) (taskId : String) (s : ReadingState)
    (task : CustomerServiceTask) (continuation : CustomerContextContinuation)
    (thread : CurrentThread) (position : Nat) : Prop where
  taskId_shown : nonBlank taskId = true
  stored : s.tasks.get? (world.store.options.orgId, jsTrim taskId) = some task
  valid : validateCustomerServiceTask world.store.options.dateParse task = .ok task
  mutable : task.status ≠ .sent ∧ task.status ≠ .failed
  later : ∀ i, s.ticks ≤ i → ¬world.clock i < task.brief.source.receivedAt ∧
    ¬world.clock i < task.createdAt
  found : task.continuations.find? (fun item => item.handle = continuation.handle) =
    some continuation
  handle_trimmed : jsTrim continuation.handle = continuation.handle
  handle_shown : continuation.handle ≠ ""
  read : currentThread world.store continuation.threadId = .ok thread
  epoch : continuation.readEpoch = thread.readEpoch
  boundary : ∃ event, thread.events[position]? = some event ∧
    event.id = continuation.boundaryEventId ∧ event.occurredAt = continuation.boundaryOccurredAt

section Call

variable {world : ReadingWorld} {taskId : String} {s : ReadingState} {task : CustomerServiceTask}
  {continuation : CustomerContextContinuation} {thread : CurrentThread} {position : Nat}

theorem continuedThread_run (h : Continues world taskId s task continuation thread position)
    (s' : ReadingState) :
    (continuedThread continuation).run world.exec s' =
      (.ok (thread.toContextThread, position), s') := by
  have hask : (ask (.currentThread continuation.threadId)).run world.exec s' =
      (.ok thread.toContextThread, s') :=
    run_ask (congrArg (fun read => (Except.map CurrentThread.toContextThread read, s')) h.read)
  obtain ⟨event, hevent, hid, htime⟩ := h.boundary
  obtain ⟨-, hnodup, -, -⟩ := currentThread_spec h.read
  have hfind : thread.toContextThread.events.findIdx? (fun item =>
      item.id = continuation.boundaryEventId &&
        item.occurredAt = continuation.boundaryOccurredAt) = some position := by
    obtain ⟨hposition, hget⟩ := List.getElem?_eq_some_iff.mp hevent
    have hat := List.findIdx?_eq_some_iff_getElem.mp (findIdx?_id hnodup hevent)
    obtain ⟨_, _, hbefore⟩ := hat
    apply List.findIdx?_eq_some_iff_getElem.mpr
    refine ⟨by simpa [CurrentThread.toContextThread] using hposition, ?_, ?_⟩
    · simp [CurrentThread.toContextThread, threadEventOf, hget, hid, htime]
    · intro j hj
      have hother := hbefore j hj
      simp only [decide_eq_true_eq] at hother
      simp only [CurrentThread.toContextThread, List.getElem_map, threadEventOf,
        Bool.and_eq_true, decide_eq_true_eq, not_and]
      intro hsame
      exact absurd (hsame.trans hid.symm) hother
  unfold continuedThread
  refine (Prog.run_bind_of_ok world.exec _ hask).trans ?_
  have hsame : decide (thread.toContextThread.readEpoch ≠ continuation.readEpoch) = false := by
    simp [CurrentThread.toContextThread, h.epoch]
  rw [hsame]
  simp only [refuseIf, liftThrown, Bool.false_eq_true, if_false, Prog.bind_eq, Prog.pure_eq,
    Prog.done_bind, hfind, Prog.run_done]

/-- The snapshot that evidence read on is put under. -/
def lastSnapshot (task : CustomerServiceTask) : String :=
  task.brief.contextSnapshotIds.getLast?.getD ("continuation:" ++ task.id)

theorem lastSnapshot_shown {dateParse : DateParse}
    (hvalid : validateCustomerServiceTask dateParse task = .ok task) :
    nonBlank (lastSnapshot task) = true := by
  have htask := validTask_of_ok hvalid
  simp only [validTask, validBrief, stringArray, Bool.and_eq_true, List.all_eq_true] at htask
  unfold lastSnapshot
  cases hlast : task.brief.contextSnapshotIds.getLast? with
  | none => exact nonBlank_append (by decide) _
  | some snapshotId =>
    exact htask.1.1.1.1.1.1.1.2.2 snapshotId (List.mem_of_getLast? hlast)

theorem sideOf_mem {direction : ContinuationDirection} {event : AuthorityEvent}
    (h : event ∈ sideOf direction thread.events position) : event ∈ thread.events := by
  unfold sideOf at h
  cases direction with
  | after => exact List.mem_of_mem_drop h
  | before => exact List.mem_of_mem_take (List.mem_reverse.mp h)

theorem mem_inOrder {α : Type} {direction : ContinuationDirection} {page : List α} {a : α} :
    a ∈ inOrder direction page ↔ a ∈ page := by
  cases direction with
  | after => exact Iff.rfl
  | before => exact List.mem_reverse

theorem inOrder_sideOf_map {α β : Type} (f : α → β) (direction : ContinuationDirection)
    (events : List α) (position size : Nat) :
    inOrder direction ((sideOf direction (events.map f) position).take size) =
      (inOrder direction ((sideOf direction events position).take size)).map f := by
  cases direction with
  | after => simp [inOrder, sideOf]
  | before => simp [inOrder, sideOf]

/-- The rows that the coordinator makes the evidence of a page of. -/
theorem page_rows (h : Continues world taskId s task continuation thread position)
    (size : Nat) :
    (((pageIndexes continuation.direction position thread.toContextThread.events.length
        size).insertionSort (· ≤ ·)).filterMap (thread.toContextThread.events[·]?)).filterMap
      (readRow world.store) =
    inOrder continuation.direction
      ((sideOf continuation.direction thread.events position).take size) := by
  obtain ⟨event, hevent, -⟩ := h.boundary
  obtain ⟨hposition, -⟩ := List.getElem?_eq_some_iff.mp hevent
  rw [page_eq continuation.direction thread.toContextThread.events
    (by simpa [CurrentThread.toContextThread] using hposition) size]
  unfold CurrentThread.toContextThread
  rw [inOrder_sideOf_map]
  apply filterMap_readRow h.read
  intro other hother
  exact sideOf_mem (List.mem_of_mem_take (mem_inOrder.mp hother))

/-- The continuation of what is left after a page, with a handle and an expiry of its own. -/
theorem nextContinuation_run (h : Continues world taskId s task continuation thread position)
    {size : Nat} (hsize : 1 ≤ size) (s' : ReadingState) (tick : Nat) :
    ((sideOf continuation.direction thread.events position).drop size = [] ∧
      (nextContinuation world.store.options continuation thread.toContextThread
        (pageIndexes continuation.direction position thread.toContextThread.events.length size)
        (world.clock tick)).run world.exec s' = (.ok none, s')) ∨
    ((sideOf continuation.direction thread.events position).drop size ≠ [] ∧
      ∃ next following,
        (nextContinuation world.store.options continuation thread.toContextThread
          (pageIndexes continuation.direction position thread.toContextThread.events.length size)
          (world.clock tick)).run world.exec s' =
            (.ok (some next), { s' with issued := s'.issued + 1 }) ∧
        validContinuation world.store.options.dateParse next = true ∧
        next.handle = world.ids s'.issued ∧ next.threadId = continuation.threadId ∧
        next.direction = continuation.direction ∧ next.readEpoch = thread.readEpoch ∧
        (∃ event, thread.events[following]? = some event ∧ event.id = next.boundaryEventId ∧
          event.occurredAt = next.boundaryOccurredAt) ∧
        sideOf continuation.direction thread.events following =
          (sideOf continuation.direction thread.events position).drop size) := by
  obtain ⟨event, hevent, -⟩ := h.boundary
  obtain ⟨hposition, -⟩ := List.getElem?_eq_some_iff.mp hevent
  have hlength : thread.toContextThread.events.length = thread.events.length := by
    simp [CurrentThread.toContextThread]
  have hnext := page_next continuation.direction hlength hposition hsize
  rw [hlength]
  unfold nextContinuation
  cases hlast : (pageIndexes continuation.direction position thread.events.length
      size).getLast? with
  | none =>
    rw [hlast] at hnext
    exact .inl ⟨hnext, rfl⟩
  | some following =>
    rw [hlast] at hnext
    obtain ⟨hfollowing, hend, hside⟩ := hnext
    have hrow : thread.toContextThread.events[following]? =
        some (threadEventOf thread.events[following]) := by
      simp [CurrentThread.toContextThread, hfollowing]
    simp only [hrow]
    cases hpage : isLastPage continuation.direction thread.toContextThread following with
    | true => exact .inl ⟨hend.mp hpage, rfl⟩
    | false =>
      right
      obtain ⟨hblank, -, ⟨digest, hepoch⟩, hvalid⟩ := currentThread_spec h.read
      have hmember : thread.events[following] ∈ thread.events := List.getElem_mem _
      obtain ⟨hthreadId, hid, -, htime⟩ := hvalid _ hmember
      obtain ⟨ms, hms⟩ : ∃ ms, world.store.options.dateParse (world.clock tick) = some ms := by
        have hclock := world.clock_valid tick
        simp only [validTimestamp, Bool.and_eq_true] at hclock
        exact Option.isSome_iff_exists.mp hclock.2
      have hexpiry : expiry world.store.options (world.clock tick) =
          .ok (world.store.options.toISOString (ms + continuationTtlMs)) := by
        unfold expiry
        rw [hms]
      refine ⟨fun hnone => ?_,
        { handle := world.ids s'.issued
          threadId := thread.events[following].threadId.getD ""
          direction := continuation.direction
          boundaryOccurredAt := thread.events[following].occurredAt
          boundaryEventId := thread.events[following].id
          readEpoch := thread.readEpoch
          expiresAt := world.store.options.toISOString (ms + continuationTtlMs) },
        following, ?_, ?_, rfl, ?_, rfl, rfl,
        ⟨thread.events[following], List.getElem?_eq_getElem hfollowing, rfl, rfl⟩, hside hpage⟩
      · rw [hend.mpr hnone] at hpage
        cases hpage
      · simp only [Bool.false_eq_true, if_false]
        refine (Prog.run_bind_of_ok world.exec _ run_createId).trans ?_
        rw [hexpiry]
        rfl
      · have hhandle : nonBlank (world.ids s'.issued) = true := by
          have hshown := world.ids_shown s'.issued
          unfold nonBlank
          rw [world.ids_trimmed]
          exact decide_eq_true hshown
        have hthread : nonBlank continuation.threadId = true := decide_eq_true hblank
        have hepochShown : nonBlank thread.readEpoch = true := by
          rw [hepoch]
          exact nonBlank_append (by decide) _
        simp only [validContinuation, hthreadId, Option.getD_some, hhandle, hthread, htime, hid,
          hepochShown, world.iso_valid, Bool.and_self]
      · rw [hthreadId, Option.getD_some]

/-- The task with the evidence of a page, and the continuation that was read replaced by the
next. -/
def readTask (world : ReadingWorld) (task : CustomerServiceTask) (handle : String)
    (evidence : List CustomerContextEvidence) (next : Option CustomerContextContinuation)
    (tick : Nat) : CustomerServiceTask :=
  { task with
    contextEvidence := mergeContextEvidence task.contextEvidence evidence
    continuations := mergeContinuations world.store.options.dateParse
      (task.continuations.filter fun item => item.handle ≠ handle) next.toList (world.clock tick)
    revision := task.revision + 1
    updatedAt := world.clock (tick + 1) }

theorem readTask_valid (h : Continues world taskId s task continuation thread position)
    {tick : Nat} (htick : s.ticks ≤ tick) {evidence : List CustomerContextEvidence}
    (hevidence : ∀ item ∈ evidence,
      validContextEvidence world.store.options.dateParse item = true)
    {next : Option CustomerContextContinuation}
    (hnext : ∀ item ∈ next.toList, validContinuation world.store.options.dateParse item = true) :
    validateCustomerServiceTask world.store.options.dateParse
        (readTask world task continuation.handle evidence next tick) =
      .ok (readTask world task continuation.handle evidence next tick) := by
  obtain ⟨hreceived, hcreated⟩ := h.later (tick + 1) (by omega)
  exact validate_reading h.valid (world.clock tick) (world.clock_valid (tick + 1)) hreceived
    hcreated hevidence hnext (fun item => decide (item.handle ≠ continuation.handle))

/-- The store takes the task of a reader that read it last. -/
theorem update_run (h : Continues world taskId s task continuation thread position)
    (s' : ReadingState) (htasks : s'.tasks = s.tasks) (hticks : s.ticks ≤ s'.ticks)
    {evidence : List CustomerContextEvidence}
    (hevidence : ∀ item ∈ evidence,
      validContextEvidence world.store.options.dateParse item = true)
    (next : Option CustomerContextContinuation)
    (hnext : ∀ item ∈ next.toList, validContinuation world.store.options.dateParse item = true) :
    (update task (do
      let mergedAt ← now
      pure { task with
        contextEvidence := mergeContextEvidence task.contextEvidence evidence
        continuations := mergeContinuations world.store.options.dateParse
          (task.continuations.filter fun item => item.handle ≠ continuation.handle) next.toList
          mergedAt }) .asBefore).run world.exec s' =
      (.ok (readTask world task continuation.handle evidence next s'.ticks),
        { s' with
          tasks := s.tasks.put (readTask world task continuation.handle evidence next s'.ticks)
          ticks := s'.ticks + 2 }) := by
  have hvalid := readTask_valid h hticks hevidence hnext
  obtain ⟨-, hkey⟩ := Table.get?_eq_some.mp h.stored
  have hput : putCustomerServiceTask world.store.options.dateParse s.tasks
      (readTask world task continuation.handle evidence next s'.ticks) (some task.revision) =
        .ok (readTask world task continuation.handle evidence next s'.ticks,
          s.tasks.put (readTask world task continuation.handle evidence next s'.ticks)) := by
    have hstored : s.tasks.get?
        (readTask world task continuation.handle evidence next s'.ticks).key = some task := by
      have hsame : (readTask world task continuation.handle evidence next s'.ticks).key =
          task.key := rfl
      rw [hsame, hkey]
      exact h.stored
    unfold putCustomerServiceTask
    simp only [hvalid, hstored]
    rw [if_pos (by simp [readTask])]
  have hperform : (Prog.perform (CustomerCall.putCustomerServiceTask
      (readTask world task continuation.handle evidence next s'.ticks) (some task.revision)
        .asBefore) : CustomerProg (Except CustomerThrown CustomerServiceTask)).run world.exec
          { s' with ticks := s'.ticks + 1 + 1 } =
        (.ok (.ok (readTask world task continuation.handle evidence next s'.ticks)),
          { s' with
            tasks := s.tasks.put (readTask world task continuation.handle evidence next s'.ticks)
            ticks := s'.ticks + 1 + 1 }) := by
    have hexec : ∀ put, putCustomerServiceTask world.store.options.dateParse s'.tasks
        (readTask world task continuation.handle evidence next s'.ticks) (some task.revision) =
          .ok put →
        world.exec (.putCustomerServiceTask
          (readTask world task continuation.handle evidence next s'.ticks) (some task.revision)
            .asBefore) { s' with ticks := s'.ticks + 1 + 1 } =
          (.ok put.1, { s' with tasks := put.2, ticks := s'.ticks + 1 + 1 }) := by
      intro put hput
      unfold ReadingWorld.exec
      simp only [hput]
    rw [← htasks] at hput ⊢
    exact congrArg (fun result => (Except.ok result.1, result.2)) (hexec _ hput)
  unfold update
  refine (Prog.run_bind_of_ok world.exec _ (Prog.run_bind_of_ok world.exec _ run_now)).trans ?_
  refine (Prog.run_bind_of_ok world.exec _ run_now).trans ?_
  exact Prog.run_bind_of_ok world.exec _ hperform

/-- What is left of the conversation after a page of a size. -/
def leftAfter (continuation : CustomerContextContinuation) (thread : CurrentThread)
    (position size : Nat) : List AuthorityEvent :=
  (sideOf continuation.direction thread.events position).drop size

/-- The page that is read next. -/
def nextPage (continuation : CustomerContextContinuation) (thread : CurrentThread)
    (position size : Nat) : List AuthorityEvent :=
  inOrder continuation.direction
    ((sideOf continuation.direction thread.events position).take size)

/-- The call up to the evidence. -/
theorem readContext_run (h : Continues world taskId s task continuation thread position)
    (hlive : isExpired world.store.options.dateParse continuation.expiresAt
      (world.clock s.ticks) = false) {size : Nat} (hsize : 1 ≤ size ∧ size ≤ 40) :
    world.runs (readContext world.store.options taskId
      { continuationHandle := continuation.handle, maxItems := some size }) s =
    world.runs (do
      let evidence : List CustomerContextEvidence ← liftThrown
        (materializeEvidence world.store (nextPage continuation thread position size)
          (lastSnapshot task) .continuation)
      let readAt ← now
      let next ← nextContinuation world.store.options continuation thread.toContextThread
        (pageIndexes continuation.direction position thread.toContextThread.events.length size)
        readAt
      let saved ← update task (do
        let mergedAt ← now
        pure { task with
          contextEvidence := mergeContextEvidence task.contextEvidence evidence
          continuations := mergeContinuations world.store.options.dateParse
            (task.continuations.filter fun item => item.handle ≠ continuation.handle) next.toList
            mergedAt }) .asBefore
      pure ({ task := saved, evidence, continuations := next.toList } : ReadContextResult))
      { s with ticks := s.ticks + 1 } := by
  have hhandle : required continuation.handle "continuation_handle" = .ok continuation.handle := by
    have hshown : nonBlank continuation.handle = true := by
      unfold nonBlank
      rw [h.handle_trimmed]
      exact decide_eq_true h.handle_shown
    unfold required
    rw [if_pos hshown, h.handle_trimmed]
  have hbounded : boundedInteger ((some (size : Int)).getD 20) "max_items" 1 40 =
      .ok (size : Int) := by
    unfold boundedInteger
    rw [if_neg (by simp only [Option.getD_some]; omega)]
    rfl
  unfold ReadingWorld.runs readContext
  refine (Prog.run_bind_of_ok world.exec _ (getTask_run h.taskId_shown h.stored h.valid)).trans ?_
  rw [requireMutable_open h.mutable, hhandle]
  refine (Prog.run_bind_of_ok world.exec _ (liveContinuation_run h.found hlive)).trans ?_
  rw [hbounded]
  refine (Prog.run_bind_of_ok world.exec _ (continuedThread_run h _)).trans ?_
  have hsame : (ask (.materializeEvidence
      (((pageIndexes continuation.direction position thread.toContextThread.events.length
        size).insertionSort (· ≤ ·)).filterMap (thread.toContextThread.events[·]?))
      (lastSnapshot task))).run world.exec { s with ticks := s.ticks + 1 } =
      (liftThrown (materializeEvidence world.store (nextPage continuation thread position size)
        (lastSnapshot task) .continuation)).run world.exec { s with ticks := s.ticks + 1 } := by
    have hrows := page_rows h size
    unfold nextPage
    rw [← hrows]
    rfl
  exact run_bind_congr hsame _

/-- A message of the page whose stored body cannot be read stops the call. -/
theorem readContext_error (h : Continues world taskId s task continuation thread position)
    (hlive : isExpired world.store.options.dateParse continuation.expiresAt
      (world.clock s.ticks) = false) {size : Nat} (hsize : 1 ≤ size ∧ size ≤ 40)
    {thrown : CustomerThrown}
    (hpage : materializeEvidence world.store (nextPage continuation thread position size)
      (lastSnapshot task) .continuation = .error thrown) :
    world.runs (readContext world.store.options taskId
      { continuationHandle := continuation.handle, maxItems := some size }) s =
    (.error thrown, { s with ticks := s.ticks + 1 }) := by
  rw [readContext_run h hlive hsize, hpage]
  rfl

/-- A call gives the evidence of the next page, and a continuation where something is left. -/
theorem readContext_ok (h : Continues world taskId s task continuation thread position)
    (hlive : isExpired world.store.options.dateParse continuation.expiresAt
      (world.clock s.ticks) = false) {size : Nat} (hsize : 1 ≤ size ∧ size ≤ 40)
    {evidence : List CustomerContextEvidence}
    (hpage : materializeEvidence world.store (nextPage continuation thread position size)
      (lastSnapshot task) .continuation = .ok evidence) :
    ∃ result s', world.runs (readContext world.store.options taskId
        { continuationHandle := continuation.handle, maxItems := some size }) s =
          (.ok result, s') ∧ result.evidence = evidence ∧
      (leftAfter continuation thread position size = [] ∧ result.continuations = [] ∨
        leftAfter continuation thread position size ≠ [] ∧ ∃ next following task',
          result.continuations = [next] ∧
          Continues world taskId s' task' next thread following ∧
          next.direction = continuation.direction ∧
          sideOf next.direction thread.events following =
            leftAfter continuation thread position size ∧
          lastSnapshot task' = lastSnapshot task) := by
  have hevidence : ∀ item ∈ evidence,
      validContextEvidence world.store.options.dateParse item = true := by
    apply materializeEvidence_valid h.read _ (lastSnapshot_shown h.valid) hpage
    intro event hevent
    exact sideOf_mem (List.mem_of_mem_take (mem_inOrder.mp hevent))
  rw [readContext_run h hlive hsize, hpage]
  rcases nextContinuation_run h hsize.1 { s with ticks := s.ticks + 1 + 1 } (s.ticks + 1) with
    ⟨hleft, hnext⟩ | ⟨hleft, next, following, hnext, hvalid, hhandle, hthread, hdirection, hepoch,
      hboundary, hside⟩
  · have hupdate := update_run h { s with ticks := s.ticks + 1 + 1 } rfl (by simp; omega)
      hevidence none (by simp)
    refine ⟨{ task := readTask world task continuation.handle evidence none (s.ticks + 1 + 1)
              evidence, continuations := [] },
      { tasks := s.tasks.put
          (readTask world task continuation.handle evidence none (s.ticks + 1 + 1))
        ticks := s.ticks + 1 + 1 + 2, issued := s.issued }, ?_, rfl, .inl ⟨hleft, rfl⟩⟩
    refine (Prog.run_bind_of_ok world.exec _ run_now).trans ?_
    refine (Prog.run_bind_of_ok world.exec _ hnext).trans ?_
    exact Prog.run_bind_of_ok world.exec _ hupdate
  · have hadded : ∀ item ∈ (some next).toList,
        validContinuation world.store.options.dateParse item = true := by
      intro item hitem
      obtain rfl := List.mem_singleton.mp hitem
      exact hvalid
    have hupdate := update_run h { s with ticks := s.ticks + 1 + 1, issued := s.issued + 1 } rfl
      (by simp; omega) hevidence (some next) hadded
    obtain ⟨-, hkey⟩ := Table.get?_eq_some.mp h.stored
    refine ⟨{ task := readTask world task continuation.handle evidence (some next)
                (s.ticks + 1 + 1)
              evidence, continuations := [next] },
      { tasks := s.tasks.put
          (readTask world task continuation.handle evidence (some next) (s.ticks + 1 + 1))
        ticks := s.ticks + 1 + 1 + 2, issued := s.issued + 1 }, ?_, rfl,
      .inr ⟨hleft, next, following,
      readTask world task continuation.handle evidence (some next) (s.ticks + 1 + 1), rfl, ?_,
      hdirection, ?_, rfl⟩⟩
    · refine (Prog.run_bind_of_ok world.exec _ run_now).trans ?_
      refine (Prog.run_bind_of_ok world.exec _ hnext).trans ?_
      exact Prog.run_bind_of_ok world.exec _ hupdate
    · exact {
        taskId_shown := h.taskId_shown
        stored := by
          rw [Table.get?_put]
          exact if_pos hkey
        valid := readTask_valid h (by omega) hevidence hadded
        mutable := h.mutable
        later := by
          intro i hi
          exact h.later i (by simp only at hi; omega)
        found := by
          have hsingle : ([next].map (·.handle)).Nodup := List.nodup_singleton _
          exact find?_mergeContinuations _ hsingle _ List.mem_cons_self
        handle_trimmed := by rw [hhandle]; exact world.ids_trimmed _
        handle_shown := by rw [hhandle]; exact world.ids_shown _
        read := by rw [hthread]; exact h.read
        epoch := hepoch
        boundary := hboundary }
    · rw [hdirection]
      exact hside

end Call

end Regenic.Customer
