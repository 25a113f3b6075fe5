import Regenic.Lib.History
import Regenic.Work.Service

/-!
What the work services do with what they read. A row is written from a copy the program was
told of; a delivery claims a send only on evidence of one; a run is written as active only from
a copy that was, and the channel is called only without a receipt. None of this depends on the
answers.
-/

namespace Regenic.Work

open Lib Reply

abbrev WorkHistory : Type := History WorkCall.Response

def Heard (h : WorkHistory) (c : WorkCall) (a : c.Answer) : Prop :=
  (⟨c, .ok a⟩ : Told WorkCall.Response) ∈ h

theorem Heard.mono {h h' : WorkHistory} (hsub : h <:+ h') {c : WorkCall} {a : c.Answer}
    (hheard : Heard h c a) : Heard h' c a := hsub.subset hheard

theorem heard_head {h : WorkHistory} {c : WorkCall} {a : c.Answer} :
    Heard (⟨c, .ok a⟩ :: h) c a := List.mem_cons_self

/-! ## Deliveries -/

/-- The work item and the payload of a delivery. -/
def WorkDelivery.payloadRef (delivery : WorkDelivery) : String × Option String :=
  (delivery.workItemId, delivery.idempotencyKey)

/-- The row says that its payload went out. -/
def Claims (delivery : WorkDelivery) : Prop :=
  deliveryChannelReceipt delivery ≠ none ∨
    (delivery.status = .acked ∧ delivery.writeBack = .sent)

/-- The program was told of a row with this payload. -/
inductive Seen (h : WorkHistory) : String × Option String → Prop where
  | listed {now : Instant} {rows : List WorkDelivery} {row : WorkDelivery}
      (hheard : Heard h (.listDueWorkDeliveries now) rows) (hmem : row ∈ rows) :
      Seen h row.payloadRef
  | found {id : String} {row : WorkDelivery}
      (hheard : Heard h (.getWorkDeliveryByItem id) (some row)) : Seen h row.payloadRef
  | latest {current row : WorkDelivery} (hheard : Heard h (.latestWorkDelivery current) row)
      (hcurrent : Seen h current.payloadRef) : Seen h row.payloadRef
  | started {item : WorkItem} {recipe : Recipe} {delivery : WorkDelivery}
      (hheard : Heard h (.startFlush item recipe delivery) ()) : Seen h delivery.payloadRef
  | timed {delivery : WorkDelivery} {now : Instant} {race : Nat}
      (hheard : Heard h (.withTimeout delivery now) race) : Seen h delivery.payloadRef

/-- The program has a reason to believe that the payload went out: its own send or prompt
answer, or a row that says so. -/
inductive Vouched (h : WorkHistory) : String × Option String → Prop where
  | sent {delivery : WorkDelivery} {text : String} {receipt : ChannelReceipt}
      (hheard : Heard h (.egressSend delivery text) receipt) : Vouched h delivery.payloadRef
  | answered {delivery : WorkDelivery} {text : String}
      (hheard : Heard h (.answerPrompt delivery text) true) : Vouched h delivery.payloadRef
  | listed {now : Instant} {rows : List WorkDelivery} {row : WorkDelivery}
      (hheard : Heard h (.listDueWorkDeliveries now) rows) (hmem : row ∈ rows)
      (hclaims : Claims row) : Vouched h row.payloadRef
  | found {id : String} {row : WorkDelivery}
      (hheard : Heard h (.getWorkDeliveryByItem id) (some row)) (hclaims : Claims row) :
      Vouched h row.payloadRef
  | latest {current row : WorkDelivery} (hheard : Heard h (.latestWorkDelivery current) row)
      (hclaims : Claims row) (hcurrent : Claims current → Vouched h current.payloadRef) :
      Vouched h row.payloadRef
  -- The row was read again after the send of another copy of it.
  | patched {current row : WorkDelivery} (hheard : Heard h (.latestWorkDelivery current) row)
      (hcurrent : Vouched h current.payloadRef) : Vouched h row.payloadRef
  | started {item : WorkItem} {recipe : Recipe} {delivery : WorkDelivery}
      (hheard : Heard h (.startFlush item recipe delivery) ()) (hclaims : Claims delivery) :
      Vouched h delivery.payloadRef
  | timed {delivery : WorkDelivery} {now : Instant} {race : Nat}
      (hheard : Heard h (.withTimeout delivery now) race) (hclaims : Claims delivery) :
      Vouched h delivery.payloadRef

/-- A copy that the program may go on from. -/
structure Backed (h : WorkHistory) (delivery : WorkDelivery) : Prop where
  seen : Seen h delivery.payloadRef
  vouched : Claims delivery → Vouched h delivery.payloadRef

/-- The row keeps the copy's payload, and its receipt unless it records one. -/
inductive DeliveryWrite (replaces : Prop) (h : WorkHistory) :
    Option WorkDelivery → WorkDelivery → Prop where
  | patch {copy row : WorkDelivery} (hseen : Seen h copy.payloadRef)
      (href : row.payloadRef = copy.payloadRef)
      (hreceipt : row.channelReceipt = copy.channelReceipt ∨
        ∃ receipt now, row = deliveryRecordReceipt copy receipt now)
      (hvouched : Claims row → Vouched h row.payloadRef) :
      DeliveryWrite replaces h (some copy) row
  | enqueue {digest : Digest} {input : WriteBackInput} {existing : Option WorkDelivery}
      (hreplaces : replaces)
      (hheard : Heard h (.getWorkDeliveryByItem input.workItemId) existing) :
      DeliveryWrite replaces h existing (enqueueWriteBack digest input existing)

/-! ## Runs -/

/-- A status that the program knows to be active. -/
inductive Live (h : WorkHistory) : WorkRunStatus → Prop where
  | active {status : WorkRunStatus} (hactive : status.isActive = true) : Live h status
  | found {workItemId : String} {run : WorkRun}
      (hheard : Heard h (.getActiveWorkRun workItemId) (some run)) : Live h run.status
  -- A run that has not ended its start has not ended.
  | starting {id : String} {run : WorkRun} (hheard : Heard h (.getWorkRun id) (some run))
      (hstart : run.startState ≠ none) : Live h run.status

inductive Stored (h : WorkHistory) : String → Prop where
  | active {workItemId : String} {run : WorkRun}
      (hheard : Heard h (.getActiveWorkRun workItemId) (some run)) : Stored h run.id
  | run {id : String} {run : WorkRun} (hheard : Heard h (.getWorkRun id) (some run)) :
      Stored h run.id

structure RunWrite (h : WorkHistory) (copy row : WorkRun) : Prop where
  id : row.id = copy.id
  stored : Stored h copy.id
  live : row.status.isActive = true → Live h copy.status
  start : row.startState ≠ none → Live h row.status

/-! ## Items -/

/-- The program was told that the item is dismissed, or dismissed it itself. -/
inductive KnownSkipped (h : WorkHistory) : String → Prop where
  | found {id : String} {item : WorkItem} (hheard : Heard h (.getWorkItem id) (some item))
      (hskipped : item.status = .skipped) : KnownSkipped h item.id
  | onThread {threadId : String} {item : WorkItem}
      (hheard : Heard h (.getWorkItemByThread threadId) (some item))
      (hskipped : item.status = .skipped) : KnownSkipped h item.id
  | listed {statuses : List WorkItemStatus} {items : List WorkItem} {item : WorkItem}
      (hheard : Heard h (.listWorkItems statuses) items) (hmem : item ∈ items)
      (hskipped : item.status = .skipped) : KnownSkipped h item.id
  | put {copy : Option WorkItem} {row : WorkItem} (hheard : Heard h (.putWorkItem copy row) ())
      (hskipped : row.status = .skipped) : KnownSkipped h row.id

/-- A copy of a dismissed item is one that was read. -/
def Known (h : WorkHistory) (item : WorkItem) : Prop :=
  item.status = .skipped → KnownSkipped h item.id

/-- After `h` the item was looked up and found not to be dismissed. -/
def FoundOpen (h h' : WorkHistory) (id : String) : Prop :=
  ∃ found : Option WorkItem, ((⟨.getWorkItem id, .ok found⟩ : Told WorkCall.Response) :: h) <:+ h' ∧
    found.any (isAbandonedWorkItem ·.status) = false

/-- The item was known to be dismissed and then found not to be. -/
def Unskipped (h : WorkHistory) (id : String) : Prop :=
  ∃ earlier, KnownSkipped earlier id ∧ FoundOpen earlier h id

structure ItemWrite (h : WorkHistory) (copy row : WorkItem) : Prop where
  id : row.id = copy.id
  skipped : copy.status = .skipped → row.status = .skipped ∨ Unskipped h copy.id

/-! ## The rules -/

/-- What differs between groups of operations: the cap that a claim may name for a recipe,
whether results are enqueued, and whether a dismissed item is opened again. -/
structure WorkRules where
  limits : String → Option Nat → Prop
  replaces : Prop
  reopens : Prop

def Allowed (rules : WorkRules) (h : WorkHistory) : WorkCall → Prop
  | .putWorkItem (some copy) row => rules.reopens ∨ ItemWrite h copy row
  | .putWorkItem none _ => rules.reopens
  | .putWorkRun (some copy) row => RunWrite h copy row
  | .putWorkRun none row => row.status.isActive = false ∧ row.startState = none
  | .claimWorkRunStart run maxConcurrent =>
    run.status.isActive = true ∧ rules.limits run.recipeId maxConcurrent
  | .putWorkDelivery copy row => DeliveryWrite rules.replaces h copy row
  | .startFlush _ _ delivery | .withTimeout delivery _ => Backed h delivery
  | .egressSend delivery _ | .answerPrompt delivery _ => deliveryChannelReceipt delivery = none
  | _ => True

abbrev workProtocol (rules : WorkRules) : Protocol WorkCall.Response WorkHistory :=
  historyProtocol (Allowed rules)

abbrev Orderly {α : Type} (rules : WorkRules) (h : WorkHistory) (p : WorkProg α)
    (post : WorkHistory → α → Prop) : Prop := Obeys (Allowed rules) h p post

/-- Orderly, and nothing is said of the result. -/
abbrev Calm {α : Type} (rules : WorkRules) (h : WorkHistory) (p : WorkProg α) : Prop :=
  Orderly rules h p fun _ _ => True

/-! ## Evidence stays -/

theorem itemWrite_of_ne {h : WorkHistory} {copy row : WorkItem} (hid : row.id = copy.id)
    (hne : copy.status ≠ .skipped) : ItemWrite h copy row :=
  ⟨hid, fun hskipped => absurd hskipped hne⟩

theorem itemWrite_skipped {h : WorkHistory} {copy row : WorkItem} (hid : row.id = copy.id)
    (hskipped : row.status = .skipped) : ItemWrite h copy row := ⟨hid, fun _ => Or.inl hskipped⟩

section Evidence

variable {h h' : WorkHistory} (hsub : h <:+ h')

include hsub

theorem Seen.mono {ref : String × Option String} (hseen : Seen h ref) : Seen h' ref := by
  induction hseen with
  | listed hheard hmem => exact .listed (hheard.mono hsub) hmem
  | found hheard => exact .found (hheard.mono hsub)
  | latest hheard _ ih => exact .latest (hheard.mono hsub) ih
  | started hheard => exact .started (hheard.mono hsub)
  | timed hheard => exact .timed (hheard.mono hsub)

theorem Vouched.mono {ref : String × Option String} (hvouched : Vouched h ref) :
    Vouched h' ref := by
  induction hvouched with
  | sent hheard => exact .sent (hheard.mono hsub)
  | answered hheard => exact .answered (hheard.mono hsub)
  | listed hheard hmem hclaims => exact .listed (hheard.mono hsub) hmem hclaims
  | found hheard hclaims => exact .found (hheard.mono hsub) hclaims
  | latest hheard hclaims _ ih => exact .latest (hheard.mono hsub) hclaims ih
  | patched hheard _ ih => exact .patched (hheard.mono hsub) ih
  | started hheard hclaims => exact .started (hheard.mono hsub) hclaims
  | timed hheard hclaims => exact .timed (hheard.mono hsub) hclaims

theorem Backed.mono {delivery : WorkDelivery} (hbacked : Backed h delivery) :
    Backed h' delivery :=
  ⟨hbacked.seen.mono hsub, fun hclaims => (hbacked.vouched hclaims).mono hsub⟩

theorem Live.mono {status : WorkRunStatus} (hlive : Live h status) : Live h' status := by
  cases hlive with
  | active hactive => exact .active hactive
  | found hheard => exact .found (hheard.mono hsub)
  | starting hheard hstart => exact .starting (hheard.mono hsub) hstart

theorem KnownSkipped.mono {id : String} (hknown : KnownSkipped h id) : KnownSkipped h' id := by
  cases hknown with
  | found hheard hskipped => exact .found (hheard.mono hsub) hskipped
  | onThread hheard hskipped => exact .onThread (hheard.mono hsub) hskipped
  | listed hheard hmem hskipped => exact .listed (hheard.mono hsub) hmem hskipped
  | put hheard hskipped => exact .put (hheard.mono hsub) hskipped

theorem Known.mono {item : WorkItem} (hknown : Known h item) : Known h' item :=
  fun hskipped => (hknown hskipped).mono hsub

theorem Stored.mono {id : String} (hstored : Stored h id) : Stored h' id := by
  cases hstored with
  | active hheard => exact .active (hheard.mono hsub)
  | run hheard => exact .run (hheard.mono hsub)

end Evidence

/-! ## Rules for programs -/

section Programs

variable {rules : WorkRules} {h : WorkHistory} {α β : Type}

theorem orderly_pure {post : WorkHistory → α → Prop} {a : α} (hpost : post h a) :
    Orderly rules h (pure a) post := Obeys.done hpost

theorem orderly_throw {post : WorkHistory → α → Prop} (code message : String) (status : Nat) :
    Orderly rules h (throwConnector code message status : WorkProg α) post := Obeys.fail _

theorem calm_pure (a : α) : Calm rules h (pure a) := Obeys.done trivial

theorem orderly_then {p : WorkProg α} {f : α → WorkProg β} {post : WorkHistory → α → Prop}
    {post' : WorkHistory → β → Prop} (hp : Orderly rules h p post)
    (hf : ∀ h' a, h <:+ h' → post h' a → Orderly rules h' (f a) post') :
    Orderly rules h (p >>= f) post' := Obeys.bind hp hf

/-- A part that nothing is used of afterwards. -/
theorem calm_then {p : WorkProg α} {f : α → WorkProg β} {post : WorkHistory → β → Prop}
    (hp : Calm rules h p) (hf : ∀ h' a, h <:+ h' → Orderly rules h' (f a) post) :
    Orderly rules h (p >>= f) post := orderly_then hp fun h' a hsub _ => hf h' a hsub

theorem ask_orderly {c : WorkCall} {post : WorkHistory → c.Answer → Prop}
    (hc : Allowed rules h c) (hpost : ∀ h' a, h <:+ h' → Heard h' c a → post h' a) :
    Orderly rules h (ask c) post := by
  refine Obeys.call hc fun r => ?_
  cases r with
  | ok a => exact Obeys.done (hpost _ a (List.suffix_cons _ h) heard_head)
  | error e => exact Obeys.fail e

theorem ask_calm {c : WorkCall} (hc : Allowed rules h c) : Calm rules h (ask c) :=
  ask_orderly hc fun _ _ _ _ => trivial

/-- What comes after a call knows its answer. -/
theorem ask_then {c : WorkCall} {f : c.Answer → WorkProg β} {post : WorkHistory → β → Prop}
    (hc : Allowed rules h c)
    (hf : ∀ h' a, h <:+ h' → Heard h' c a → Orderly rules h' (f a) post) :
    Orderly rules h (ask c >>= f) post := by
  refine Obeys.call hc fun r => ?_
  cases r with
  | ok a => exact hf _ a (List.suffix_cons _ h) heard_head
  | error e => exact Obeys.fail e

/-- The call is the last one in the history that follows it. -/
theorem ask_then_last {c : WorkCall} {f : c.Answer → WorkProg β} {post : WorkHistory → β → Prop}
    (hc : Allowed rules h c)
    (hf : ∀ a, Orderly rules (⟨c, .ok a⟩ :: h) (f a) post) :
    Orderly rules h (ask c >>= f) post := by
  refine Obeys.call hc fun r => ?_
  cases r with
  | ok a => exact hf a
  | error e => exact Obeys.fail e

theorem orderly_liftThrown {post : WorkHistory → α → Prop} (r : Except Thrown α)
    (hpost : ∀ a, r = .ok a → post h a) : Orderly rules h (liftThrown r) post := by
  cases r with
  | ok a => exact Obeys.done (hpost a rfl)
  | error e => exact Obeys.fail e

/-- A program under `try`: its result is only known when it did not throw. -/
theorem orderly_attempt {p : WorkProg α} {post : WorkHistory → α → Prop}
    (hp : Orderly rules h p post) :
    Orderly rules h (attempt p) fun h' r => ∀ a, r = .ok a → post h' a := by
  have hok : Orderly rules h (p.bind fun a => .done (.ok a))
      fun h' (r : Except Thrown α) => ∀ a, r = .ok a → post h' a := by
    apply Obeys.bind hp
    intro h' a _ hpost
    apply Obeys.done
    intro b hb
    cases hb
    exact hpost
  apply Obeys.tryCatch hok
  · intro h' r _ hr
    exact hr
  · intro h' e _
    exact Obeys.done fun _ hb => nomatch hb

theorem calm_attempt {p : WorkProg α} (hp : Calm rules h p) : Calm rules h (attempt p) :=
  Obeys.mono (orderly_attempt hp) fun _ _ _ _ => trivial

end Programs

end Regenic.Work
