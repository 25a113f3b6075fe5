import Regenic.Customer.LostPage
import Regenic.Customer.SentText

/-!
A text that goes out in another's place. A reply is delivered, but its delivery cannot be stored,
so the task is given back; the brief is updated, which drops the draft and with it the count of
its versions, and the next draft gets the request id of the last. Its sending is answered with
the delivery of the old text.
-/

namespace Regenic.Customer

open Lib Reply

/-- What the reply service saved of the delivery. -/
def deliveredBatch : ReplyBatch where
  connectorId := "feishu-1"
  orgId := "local"
  deliveryId := "reply:customer-service:task-1:draft:1"
  source := "feishu"
  externalId := "om_2"
  scopeId := "oc_1"
  parentExternalId := some "om_1"
  content :=
    { text := "Your order is on its way."
      quoted := some { channel := "feishu", externalId := "om_1" }
      attachments := [] }
  receivedAt := newYear

/-- What the channel's driver and the store answer; whether a delivery is stored is left open. -/
def channelAnswers (stores : Bool) : (call : OutsideCall) → Except Thrown call.Answer
  | .randomUUID => .ok "request-1"
  | .now => .ok newYear
  | .prepareAttachments _ => .ok []
  | .findForThread _ => .ok (some ⟨"feishu-1", "feishu", true⟩)
  | .assertOpen _ => .ok ()
  | .getInboxItem _ => .ok (some { channel := "feishu", externalId := "om_1" })
  | .bindEgress _ _ => .ok ()
  | .conversationStamp _ => .ok ()
  | .saveReplyRecovery _ => .ok askedHash
  | .loadReplyRecovery _ => .ok deliveredBatch
  | .stopsInstallations => .ok false
  | .findInstallation _ => .ok (some "local")
  | .outboundId _ _ => .ok "om_2"
  | .ingest _ => if stores then .ok ⟨true, some "event-2"⟩ else .error (.error "disk full")
  | .bindSourceIdentityAliases _ _ => .ok ()

def online (stores : Bool) : ReplyEnv where
  sendOutcome := .ok { accepted := true }
  answer := channelAnswers stores

/-- The desk with a channel, while the order is asked for under this version of the brief. -/
def openDesk (briefVersion : Nat) (stores : Bool) : CustomerEnv :=
  { deskWith { orderPage "query-1" true with briefVersion } with reply := online stores }

/-- From the message to the sending of this text. -/
def answerRequests (text : String) : List Request :=
  [.updateBrief "task-1" orderBrief,
    .queryBusiness "task-1" none,
    .createDraft "task-1" { orderReply "query-1" with text },
    .reviewDraft "task-1" approval,
    .send "task-1"]

/-- The first answer, and another one after it. -/
def resentRequests (text : String) : List Request :=
  [.createTask { sourceEventId := "event-1", contentHash := askedHash },
    .searchContext "task-1" { query := "order" }] ++
    answerRequests "Your order is on its way." ++ answerRequests text

/-- The requests of an answer one after the other, from this one on; the sending has this many
calls. -/
def answerSteps (first : Nat) (desk : CustomerEnv) (sending : Nat) : List (Nat × CustomerEnv) :=
  List.replicate 3 (first, desk) ++ List.replicate 6 (first + 1, desk) ++
    List.replicate 4 (first + 2, desk) ++ List.replicate 4 (first + 3, desk) ++
    List.replicate sending (first + 4, desk)

/-- The first delivery is not stored, and the second sending is answered with it. -/
def resentSteps : List (Nat × CustomerEnv) :=
  List.replicate 7 (0, openDesk 2 false) ++ List.replicate 7 (1, openDesk 2 false) ++
    answerSteps 2 (openDesk 2 false) 25 ++ answerSteps 7 (openDesk 3 true) 17

/-- The tasks that are sent have a text that was accepted. -/
def sentTexts (s : CustomerState) : Bool :=
  s.tasks.rows.all fun task =>
    task.status ≠ .sent || task.draft.any fun draft => draft.sent.any fun sent =>
      s.accepted.any fun intent =>
        intent.idempotencyKey = sent.clientRequestId && intent.content.text = draft.text

theorem SentWithOwnText.sentTexts {s : CustomerState} (h : SentWithOwnText s) :
    sentTexts s = true := by
  apply List.all_eq_true.mpr
  intro task htask
  by_cases hstatus : task.status = .sent
  · obtain ⟨draft, sent, hdraft, hsent, intent, hmem, hid, htext⟩ := h.sent task htask hstatus
    rw [hdraft, Bool.or_eq_true]
    right
    simp only [Option.any_some, hsent]
    exact List.any_eq_true.mpr ⟨intent, hmem, by simp [hid, htext]⟩
  · simp [hstatus]

/-- The same text again: its delivery is found, and the task is sent with it. -/
theorem replies_ownText_sameText :
    SentWithOwnText
      (run (CustomerPool.step deskOptions)
        (.start deskOptions (resentRequests "Your order is on its way."))
        resentSteps).state :=
  replies_ownText deskOptions (resentRequests "Your order is on its way.") resentSteps
    (by
      intro request hrequest taskId input heq
      subst heq
      simp [resentRequests, answerRequests] at hrequest)
    (by decide +kernel)

/-- Another text: the task is sent with a text that no one was sent. -/
theorem replies_ownText_otherText :
    ¬ SentWithOwnText
      (run (CustomerPool.step deskOptions)
        (.start deskOptions (resentRequests "Your order was lost.")) resentSteps).state := by
  intro hown
  exact absurd hown.sentTexts (by decide +kernel)

end Regenic.Customer
