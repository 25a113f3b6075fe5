import Regenic.Customer.Approved

/-!
A page that takes another's place. When the gateway gives both pages of a query the same query
id, the second is stored in the place of the first; the draft is then made from the second page
alone, and is approved.
-/

namespace Regenic.Customer

open Lib Reply

def newYear : String := "2026-01-01"

def deskOptions : CustomerOptions where
  orgId := "local"
  businessId := "orders"
  dateParse := fun text => if text = newYear then some 1767225600000 else none
  toISOString := fun _ => newYear

def askedHash : String := "aaaaaaaaaaaaaaaaaaaaaaaaaaaaaaaaaaaaaaaaaaaaaaaaaaaaaaaaaaaaaaaa"

def askedEvent : SourceEvent where
  id := "event-1"
  contentHash := some askedHash
  threadId := some "feishu:oc_1"
  source := "feishu"
  externalId := "om_1"
  occurredAt := newYear
  tombstone := false

def askedContext : CustomerContextEvidence where
  citationId := "context:1"
  snapshotId := "snapshot-1"
  eventId := "event-1"
  contentHash := askedHash
  source := "feishu"
  threadId := "feishu:oc_1"
  occurredAt := newYear
  text := "Where is my order?"
  selectionReason := .neighbor

/-- What the outside answers at the desk. -/
def deskAnswers : (question : Outside) → Except CustomerThrown question.Answer
  | .now => .ok newYear
  | .createId => .ok "task-1"
  | .getEvent _ => .ok (some askedEvent)
  | .findBySourceIdentity _ _ => .ok (some askedEvent)
  | .findBlob _ => .ok (some "text/plain")
  | .getBlob _ _ => .ok ⟨askedHash, some "Where is my order?"⟩
  | .assemble _ => .ok ⟨"snapshot-1", []⟩
  | .expandThread _ _ _ _ _ => .ok ⟨[askedContext], []⟩
  | .currentThread _ => .ok ⟨"epoch-1", []⟩
  | .materializeEvidence _ _ => .ok []
  | .sentEventId _ => .ok "event-2"

def offline : ReplyEnv where
  sendOutcome := .error (.error "offline")
  answer := fun _ => .error (.error "offline")

/-- The desk while the gateway answers with this page. -/
def deskWith (page : BusinessEvidence) : CustomerEnv :=
  { answer := deskAnswers, business := .ok page, reply := offline }

/-- A page with the last or the first part of the answer. -/
def orderPage (queryId : String) (last : Bool) : BusinessEvidence where
  citationId := "business:" ++ queryId
  queryId
  taskId := "task-1"
  briefVersion := 2
  providerId := "orders"
  customerId := "customer-1"
  projectId := "project-1"
  batchId := "batch-1"
  requestedFields := ["status"]
  queriedAt := newYear
  complete := last
  nextPage := if last then none else some "page-2"
  results := if last then
      [{ memberKey := "order-1", businessId := "o-1", status := .found
         fields := [
           { field := "status", value := .string "on its way", visibility := .customer
             authority := "orders", updatedAt := newYear }] }]
    else []

def verifiedAs (value : String) : CustomerResolvedValue :=
  { status := .verified, value := some value, evidence := ["context:1"] }

def orderBrief : UpdateBriefInput where
  customer := verifiedAs "customer-1"
  project := verifiedAs "project-1"
  batch := verifiedAs "batch-1"
  intent := verifiedAs "order status"
  membersClosed := true
  members := [
    { memberKey := "order-1", displayName := "The order", businessId := some "o-1"
      status := .verified, evidence := ["context:1"], identityEvidence := some "context:1" }]
  requestedFields := ["status"]

def orderReply (queryId : String) : CreateDraftInput where
  text := "Your order is on its way."
  claims := [
    { claimId := "claim-1", text := "on its way", memberKeys := ["order-1"]
      fields := ["status"], evidence := ["business:" ++ queryId] }]
  coveredMemberKeys := ["order-1"]

def approval : ReviewDraftInput where
  result := .approved
  reviewer := { actorType := .human, actorId := "local" }

/-- From the message to an approved draft, with a query that has two pages. -/
def orderRequests (queryId : String) : List Request :=
  [.createTask { sourceEventId := "event-1", contentHash := askedHash },
    .searchContext "task-1" { query := "order" },
    .updateBrief "task-1" orderBrief,
    .queryBusiness "task-1" none,
    .queryBusiness "task-1" (some "page-2"),
    .createDraft "task-1" (orderReply queryId),
    .reviewDraft "task-1" approval]

/-- The requests one after the other; the pages come with these query ids. -/
def orderSteps (firstId secondId : String) : List (Nat × CustomerEnv) :=
  let first := deskWith (orderPage firstId false)
  let second := deskWith (orderPage secondId true)
  List.replicate 7 (0, first) ++ List.replicate 7 (1, first) ++ List.replicate 3 (2, first) ++
    List.replicate 6 (3, first) ++ List.replicate 4 (4, second) ++ List.replicate 4 (5, second) ++
    List.replicate 4 (6, second)

/-- The approved drafts list the pages of the query round. -/
def listsRound (s : CustomerState) : Bool :=
  s.tasks.rows.all fun task =>
    !task.status.isApproved || task.draft.any fun draft =>
      listedPages task draft = (s.round task.key).map (·.evidence)

theorem RepliesApproved.listsRound {s : CustomerState} (h : RepliesApproved s) :
    listsRound s = true := by
  apply List.all_eq_true.mpr
  intro task htask
  cases hstatus : task.status.isApproved with
  | false => rfl
  | true =>
    obtain ⟨draft, hdraft, happroved⟩ := h.tasks task htask hstatus
    rw [hdraft]
    simpa using happroved.pages

/-- Each page with a query id of its own. -/
theorem replies_approved_ownIds :
    RepliesApproved
      (run (CustomerPool.step deskOptions) (.start deskOptions (orderRequests "query-2"))
        (orderSteps "query-1" "query-2")).state :=
  replies_approved deskOptions (orderRequests "query-2") (orderSteps "query-1" "query-2")
    (by decide +kernel)

/-- Both pages with one query id: the draft is approved without the first page. -/
theorem replies_approved_sameIds :
    ¬ RepliesApproved
      (run (CustomerPool.step deskOptions) (.start deskOptions (orderRequests "query-1"))
        (orderSteps "query-1" "query-1")).state := by
  intro happroved
  exact absurd happroved.listsRound (by decide +kernel)

end Regenic.Customer
