import Regenic.Lib.Run
import Regenic.Work.Store

/-!
Which deliveries are due, said twice: by the query of the SQLite store and by the predicate of the
memory store. The two agree on every row that the transitions make but one kind: a write-back that
failed and waits for its retry carries no lease, which the query takes for a lease that ran out.
-/

namespace Regenic.Work

open Lib

/-! ## Transitions -/

inductive DeliveryTransition where
  | enqueueWriteBack (input : WriteBackInput)
  | claimSend (now : Instant)
  | recordReceipt (receipt : ChannelReceipt) (now : Instant)
  | acked (outcome : WriteBackOutcome) (now : Instant)
  | abandoned (now : Instant)
  | writeBackFailed (error : String) (now : Instant)
  | sendTimedOut (now : Instant)
  | retryNow (now : Instant)
  | reclaimLease (now : Instant)
  deriving DecidableEq, Repr

def WorkDelivery.transition (digest : Digest) (delivery : WorkDelivery) :
    DeliveryTransition → WorkDelivery
  | .enqueueWriteBack input => enqueueWriteBack digest input (some delivery)
  | .claimSend now => deliveryClaimSend delivery now
  | .recordReceipt receipt now => deliveryRecordReceipt delivery receipt now
  | .acked outcome now => deliveryAcked delivery outcome now
  | .abandoned now => deliveryAbandoned delivery now
  | .writeBackFailed error now => deliveryWriteBackFailed delivery error now
  | .sendTimedOut now => deliverySendTimedOut delivery now
  | .retryNow now => deliveryRetryNow delivery now
  | .reclaimLease now => reclaimDeliveryLease delivery now

/-- The delivery that an item's first result enqueues, after transitions in any order. -/
def deliveryAfter (digest : Digest) (input : WriteBackInput)
    (transitions : List DeliveryTransition) : WorkDelivery :=
  run (WorkDelivery.transition digest) (enqueueWriteBack digest input none) transitions

/-- A write-back that failed and waits for its retry. -/
def awaitsRetry (delivery : WorkDelivery) (now : Instant) : Bool :=
  delivery.writeBack = .failed && delivery.nextRetryAt.any (now < ·)

/-! ## Shape -/

/-- What the transitions keep: there is a payload, and a write-back that failed is either dead,
with no retry, or waits without a lease. -/
structure DeliveryShape (delivery : WorkDelivery) : Prop where
  payload : delivery.payload.isSome
  failed : delivery.writeBack = .failed →
    (delivery.status = .dead ∧ delivery.nextRetryAt = none) ∨
      (delivery.status = .writeBack ∧ delivery.leaseExpiresAt = none)

section Shape

variable {digest : Digest} {delivery : WorkDelivery}

theorem freshDelivery_shape (input : WriteBackInput) (existing : Option WorkDelivery) :
    DeliveryShape (freshDelivery digest input existing) where
  payload := rfl
  failed := fun h => by cases h

theorem enqueueWriteBack_shape (input : WriteBackInput) (h : DeliveryShape delivery) :
    DeliveryShape (enqueueWriteBack digest input (some delivery)) := by
  unfold enqueueWriteBack
  dsimp only
  split
  · split
    · exact h
    · exact ⟨h.payload, h.failed⟩
  · exact freshDelivery_shape input (some delivery)

theorem deliveryWriteBackFailed_shape (error : String) (now : Instant)
    (h : DeliveryShape delivery) : DeliveryShape (deliveryWriteBackFailed delivery error now) where
  payload := h.payload
  failed := by
    intro _
    unfold deliveryWriteBackFailed
    by_cases hdead : deliveryMaxAttempts ≤ max delivery.attempts 1
    · left
      simp [hdead]
    · right
      simp [hdead]

theorem reclaimDeliveryLease_shape (now : Instant) (h : DeliveryShape delivery) :
    DeliveryShape (reclaimDeliveryLease delivery now) := by
  unfold reclaimDeliveryLease
  split
  · split
    · exact ⟨h.payload, fun hfailed => by cases hfailed⟩
    · exact ⟨h.payload, fun hfailed => by cases hfailed⟩
  · exact h

theorem DeliveryShape.transition (h : DeliveryShape delivery) (change : DeliveryTransition) :
    DeliveryShape (delivery.transition digest change) := by
  cases change with
  | enqueueWriteBack input => exact enqueueWriteBack_shape input h
  | claimSend now => exact ⟨h.payload, fun hfailed => by cases hfailed⟩
  | recordReceipt receipt now => exact ⟨h.payload, h.failed⟩
  | acked outcome now => exact ⟨h.payload, fun hfailed => by cases outcome <;> cases hfailed⟩
  | abandoned now => exact ⟨h.payload, fun hfailed => by cases hfailed⟩
  | writeBackFailed error now => exact deliveryWriteBackFailed_shape error now h
  | sendTimedOut now => exact ⟨h.payload, h.failed⟩
  | retryNow now => exact ⟨h.payload, fun hfailed => by cases hfailed⟩
  | reclaimLease now => exact reclaimDeliveryLease_shape now h

theorem deliveryAfter_shape (input : WriteBackInput) (transitions : List DeliveryTransition) :
    DeliveryShape (deliveryAfter digest input transitions) := by
  apply run_invariant (WorkDelivery.transition digest) DeliveryShape
  · exact fun _ change h => h.transition change
  · exact freshDelivery_shape input none

end Shape

/-! ## Due -/

section Due

variable {delivery : WorkDelivery} {now : Instant}

/-- A write-back that did not fail is due for both or for none. -/
theorem isDueDelivery_of_not_failed (h : DeliveryShape delivery)
    (hfailed : delivery.writeBack ≠ .failed) :
    isDueDelivery delivery now = shouldFlushDelivery delivery now := by
  obtain ⟨payload, hpayload⟩ := Option.isSome_iff_exists.mp h.payload
  unfold isDueDelivery shouldFlushDelivery reclaimDeliveryLease isDeliveryLeaseExpired
  cases hstatus : delivery.status <;> cases hlease : delivery.leaseExpiresAt <;>
    simp [hpayload, hfailed, hstatus]
  all_goals
    split <;> simp_all

/-- A write-back that failed is due for the query as long as it is not dead. -/
theorem isDueDelivery_of_failed (h : DeliveryShape delivery)
    (hfailed : delivery.writeBack = .failed) :
    isDueDelivery delivery now = decide (delivery.status ≠ .dead) ∧
      shouldFlushDelivery delivery now =
        (decide (delivery.status ≠ .dead) && delivery.nextRetryAt.all (· ≤ now)) := by
  obtain ⟨payload, hpayload⟩ := Option.isSome_iff_exists.mp h.payload
  have hexpired : isDeliveryLeaseExpired delivery now = false := if_pos hfailed
  rcases h.failed hfailed with ⟨hstatus, hretry⟩ | ⟨hstatus, hlease⟩
  · simp [isDueDelivery, shouldFlushDelivery, reclaimDeliveryLease, hexpired, hstatus]
  · constructor
    · simp [isDueDelivery, hpayload, hfailed, hstatus, hlease]
    · unfold shouldFlushDelivery reclaimDeliveryLease
      rw [hexpired]
      cases hretry : delivery.nextRetryAt <;> simp [hpayload, hfailed, hstatus, hretry]

def sentBack : WriteBackInput where
  newId := "d1"
  workItemId := "w1"
  recipeId := "r1"
  kind := .push
  unitKey := "u1"
  eventId := none
  payload := { summary := "done" }
  now := 0

/-- The write-back is claimed and fails, and the store is asked at the same instant. -/
def failedWriteBack : WorkDelivery :=
  deliveryAfter (fun text => text) sentBack [.claimSend 0, .writeBackFailed "timeout" 0]

end Due

end Regenic.Work
