import Regenic.Lib.Table
import Regenic.Lib.Text

/-!
What a reply is made of: the channel's receipt, the durable attempt row and the errors that
travel through the service.
-/

namespace Regenic.Reply

open Lib

structure DeliveryReceipt where
  accepted : Bool
  rpcId : Option String := none
  channelMessageIds : Option (List String) := none
  deriving DecidableEq, Repr

inductive AttemptStatus where
  | pending
  | accepted
  | sent
  | failed
  | rejected
  deriving DecidableEq, Repr

/-- A row of `outbound_attempts`. -/
structure OutboundAttempt where
  orgId : String
  clientRequestId : String
  threadId : String
  eventId : Option String := none
  status : AttemptStatus
  channelMessageIds : Option (List String) := none
  recoveryHash : Option String := none
  receipt : Option DeliveryReceipt := none
  createdAt : String
  updatedAt : String
  deriving DecidableEq, Repr

def OutboundAttempt.key (row : OutboundAttempt) : String × String :=
  (row.orgId, row.clientRequestId)

structure NewOutboundAttempt where
  orgId : String
  clientRequestId : String
  threadId : String
  recoveryHash : Option String := none
  now : String
  deriving DecidableEq, Repr

structure OutboundAttemptPut where
  orgId : String
  clientRequestId : String
  threadId : String
  eventId : Option String := none
  status : AttemptStatus
  channelMessageIds : Option (List String) := none
  recoveryHash : Option String := none
  receipt : Option DeliveryReceipt := none
  now : String
  deriving DecidableEq, Repr

/-! ## Errors -/

structure PersonalConnectorError where
  code : String
  message : String
  httpStatus : Nat
  deriving DecidableEq, Repr

/-- What a JavaScript `throw` carries here, by the classes the service tells apart. -/
inductive Thrown where
  | connector (error : PersonalConnectorError)
  | deadline (message : String)
  | driver (code message : String) (reason : Option String := none)
  | sendNotAccepted (code message : String) (reason : Option String := none)
  | error (message : String)
  deriving DecidableEq, Repr

def httpStatusFor (code : String) : Nat :=
  if code ∈ ["invalid_config", "missing_credentials", "channel_required",
      "conversation_required", "kinds_required"] then 400
  else if code = "already_installed" then 409
  else if code = "unsupported_channel" then 501
  else if code = "no_sender" then 404
  else if code = "disabled" ∨ code = "lease_unavailable" then 409
  else if code = "deadline_exceeded" then 504
  else if code = "throttled" then 429
  else 502

def wrapDriverError (error : Thrown) (fallback : String) : PersonalConnectorError :=
  match error with
  | .connector error => error
  | .deadline message =>
    { code := "deadline_exceeded", message, httpStatus := httpStatusFor "deadline_exceeded" }
  | .driver code message reason | .sendNotAccepted code message reason =>
    { code := reason.getD code, message, httpStatus := httpStatusFor (reason.getD code) }
  | .error message => { code := fallback, message, httpStatus := httpStatusFor fallback }

/-! ## Conversations -/

structure ConversationThread where
  source : String
  target : String
  deriving DecidableEq, Repr

def parseConversationThread (threadId : String) : Except Thrown ConversationThread :=
  let malformed := Thrown.driver "invalid_config" "thread_id must look like source:target"
  match indexOf? [':'] threadId.toList with
  | none => .error malformed
  | some colon =>
    if colon = 0 ∨ colon + 1 = threadId.toList.length then .error malformed
    else .ok
      { source := String.ofList (threadId.toList.take colon)
        target := String.ofList (threadId.toList.drop (colon + 1)) }

/-- The ids of a receipt, trimmed, each once, in order. -/
def channelMessageIds (receipt : DeliveryReceipt) : List String :=
  let ids := receipt.channelMessageIds.getD [] ++ (present receipt.rpcId).toList
  keepFirst id ((ids.map jsTrim).filter (· ≠ ""))

end Regenic.Reply
