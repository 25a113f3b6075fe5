import Regenic.Customer.LostPage
import Regenic.Customer.Search

/-!
A search and what is read on from it. Reading on from any of its handles comes through the
conversation, up to a body that cannot be read. The windows of the search keep the earliest of
their messages, so that a seed is pushed out by the messages around it when these come before it
and take up the share of its conversation.
-/

namespace Regenic.Customer

open Lib

theorem sourceThread_shown {dateParse : DateParse} {task : CustomerServiceTask}
    (h : validateCustomerServiceTask dateParse task = .ok task) :
    task.brief.source.threadId ≠ "" := by
  have htask := validTask_of_ok h
  simp only [validTask, Bool.and_eq_true] at htask
  obtain ⟨⟨⟨⟨⟨⟨⟨⟨-, hbrief⟩, -⟩, -⟩, -⟩, -⟩, -⟩, -⟩, -⟩ := htask
  simp only [validBrief, Bool.and_eq_true] at hbrief
  obtain ⟨⟨⟨⟨⟨⟨⟨⟨⟨⟨⟨⟨⟨-, hsource⟩, -⟩, -⟩, -⟩, -⟩, -⟩, -⟩, -⟩, -⟩, -⟩, -⟩, -⟩, -⟩ := hbrief
  simp only [validSource, Bool.and_eq_true] at hsource
  obtain ⟨⟨⟨⟨⟨-, hthread⟩, -⟩, -⟩, -⟩, -⟩ := hsource
  intro hempty
  rw [hempty] at hthread
  exact absurd hthread (by decide)

def laterYear : String := "2026-01-01T00:30:00.000Z"

/-- The desk with a clock that stands still, half an hour before what it hands out expires. -/
def stillOptions : CustomerOptions where
  orgId := "local"
  businessId := "orders"
  dateParse := fun text =>
    if text = newYear then some 1767225600000
    else if text = laterYear then some 1767227400000 else none
  toISOString := fun ms => if ms = 1767227400000 then laterYear else newYear

def askedText : Bytes := utf8Encode "Where is my order?"

/-- A question, and the same question sent right before it. -/
def askedRow : Context.EventRow where
  orgId := "local"
  source := "feishu"
  externalId := "om_2"
  id := "event-2"
  operation := .create
  contentHash := some askedHash
  threadId := some "feishu:oc_1"
  occurredAt := newYear
  ingestedAt := newYear

def earlierRow : Context.EventRow :=
  { askedRow with
    externalId := "om_1"
    id := "event-1" }

def twoMessageTables : Context.ContextTables where
  events := [earlierRow, askedRow]
  mediaType := fun _ => some "text/plain"
  sourceHeads :=
    [⟨⟨"local", "feishu", "om_1"⟩, "event-1"⟩, ⟨⟨"local", "feishu", "om_2"⟩, "event-2"⟩]

def askedDigests : Ingest.Sha256 := .ofDigests [(askedText, askedHash)]

theorem twoMessageTables_ids : (twoMessageTables.events.map (·.id)).Nodup := by decide

/-- The texts of the desk, checked together. -/
theorem deskTexts_valid :
    (∀ row ∈ twoMessageTables.events, nonBlank row.id = true ∧ nonBlank row.source = true ∧
      validTimestamp stillOptions.dateParse row.occurredAt = true) ∧
    validTimestamp stillOptions.dateParse newYear = true ∧
    validTimestamp stillOptions.dateParse laterYear = true ∧
    isContentHash (askedDigests.hex askedText) = true ∧
    isContentHash (String.ofList (List.replicate 64 '0')) = true := by
  decide +kernel

theorem twoMessageTables_rows : ∀ row ∈ twoMessageTables.events, nonBlank row.id = true ∧
    nonBlank row.source = true ∧ validTimestamp stillOptions.dateParse row.occurredAt = true := by
  obtain ⟨hrows, -⟩ := deskTexts_valid
  exact hrows

theorem askedDigests_shape (bytes : Bytes) : isContentHash (askedDigests.hex bytes) = true := by
  obtain ⟨-, -, -, hhash, hzero⟩ := deskTexts_valid
  by_cases hasked : askedText = bytes
  · subst hasked
    exact hhash
  · have hzeros : askedDigests.hex bytes = String.ofList (List.replicate 64 '0') := by
      simp [askedDigests, Ingest.Sha256.ofDigests, hasked]
    rw [hzeros]
    exact hzero

def twoMessages : ThreadStore where
  options := stillOptions
  tables := twoMessageTables
  recordedAt := newYear
  blob := fun hash => if hash = askedHash then some askedText else none
  sha256 := askedDigests
  readDigest := fun _ _ => "digest"
  ids_nodup := twoMessageTables_ids
  rows_valid := twoMessageTables_rows
  digest_shape := askedDigests_shape

def deskId (i : Nat) : String := String.ofList (List.replicate (i + 1) 'x')

theorem deskId_trimmed (i : Nat) : jsTrim (deskId i) = deskId i := by
  have hspace : isJsSpace 'x' = false := by decide
  have hkept : (List.replicate (i + 1) 'x').dropWhile isJsSpace = List.replicate (i + 1) 'x' := by
    simp [List.replicate_succ, hspace]
  unfold jsTrim deskId trimChars
  rw [String.toList_ofList, hkept, List.reverse_replicate, hkept, List.reverse_replicate]

theorem deskId_shown (i : Nat) : deskId i ≠ "" := by
  intro hempty
  have hlist := congrArg String.toList hempty
  simp [deskId] at hlist

theorem deskId_injective : Function.Injective deskId := by
  intro i j hsame
  have hlength := congrArg (fun text : String => text.toList.length) hsame
  simpa [deskId] using hlength

theorem newYear_valid : validTimestamp stillOptions.dateParse newYear = true := by
  obtain ⟨-, hnew, -⟩ := deskTexts_valid
  exact hnew

theorem stillOptions_iso (ms : Int) :
    validTimestamp stillOptions.dateParse (stillOptions.toISOString ms) = true := by
  obtain ⟨-, hnew, hlater, -⟩ := deskTexts_valid
  have hiso : stillOptions.toISOString ms = if ms = 1767227400000 then laterYear else newYear := rfl
  rw [hiso]
  split
  · exact hlater
  · exact hnew

/-- What is asked at the desk beside the conversation: the context engine finds nothing. -/
def quietAnswer : (c : CustomerCall) → c.Answer
  | .getCustomerServiceTask _ => .ok none
  | .putCustomerServiceTask _ _ _ => .error .conflict
  | .queryBusiness _ => .error .other
  | .outside question => deskAnswers question
  | .reply call => (call.exec offline {}).1

def stillDesk : ReadingWorld where
  store := twoMessages
  clock := fun _ => newYear
  ids := deskId
  other := quietAnswer
  clock_valid := fun _ => newYear_valid
  clock_forward := fun _ _ h => h
  iso_valid := stillOptions_iso
  ids_trimmed := deskId_trimmed
  ids_shown := deskId_shown
  ids_injective := deskId_injective

def secondEvent : SourceEvent :=
  { askedEvent with
    id := "event-2"
    externalId := "om_2" }

def questionTask : CustomerServiceTask :=
  openedTask stillOptions "task-1" newYear newYear "Where is my order?" secondEvent "feishu:oc_1"
    askedHash

def questionAsked : ReadingState where
  tasks := (∅ : TaskTable).put questionTask
  ticks := 1
  issued := 0

/-- A search for one item, with some of the messages around it. -/
def oneItem (neighbors : Int) : SearchContextInput where
  query := "order"
  maxItems := some 1
  neighborCount := some neighbors

/-- The one conversation of the desk, its messages readable. -/
theorem twoMessages_thread : ∃ thread, currentThread twoMessages "feishu:oc_1" = .ok thread ∧
    (∃ event ∈ thread.events, event.id = "event-2") ∧
    ∀ event ∈ thread.events, Readable twoMessages event := by
  obtain ⟨thread, hthread, htest⟩ := ok_of_any (x := currentThread twoMessages "feishu:oc_1")
    (p := fun thread => (thread.events.any fun event => event.id = "event-2") &&
      thread.events.all (isReadable twoMessages)) (by decide +kernel)
  rw [Bool.and_eq_true, List.any_eq_true, List.all_eq_true] at htest
  obtain ⟨⟨event, hevent, hid⟩, hall⟩ := htest
  refine ⟨thread, hthread, ⟨event, hevent, of_decide_eq_true hid⟩, ?_⟩
  intro other hother
  exact isReadable_iff.mp (hall other hother)

theorem exists_of_fst {α β : Type} {run : α × β} {result : α} (h : run.1 = result) :
    ∃ s', run = (result, s') := by
  cases h
  exact ⟨run.2, rfl⟩

end Regenic.Customer
