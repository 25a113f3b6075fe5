import Regenic.Customer.Sending
import Regenic.Reply.Handed

/-!
What every operation does with what it has read, whatever the answers are. A task is put only as
one of a few changes of a task that was read or put before; a reply call is made only for the
draft of a task that was put as being sent.
-/

namespace Regenic.Customer

open Lib Reply

abbrev CustomerHistory : Type := History CustomerCall.Answer

def ReadTask (h : CustomerHistory) (task : CustomerServiceTask) : Prop :=
  ∃ taskId, ⟨.getCustomerServiceTask taskId, .ok (some task)⟩ ∈ h

/-- A put of `next` was answered with `task`. -/
def PutTask (h : CustomerHistory) (next task : CustomerServiceTask) : Prop :=
  ∃ expected asked, ⟨.putCustomerServiceTask next expected asked, .ok task⟩ ∈ h

def KnownTask (h : CustomerHistory) (task : CustomerServiceTask) : Prop :=
  ReadTask h task ∨ ∃ next, PutTask h next task

def liftTold (told : Told ReplyCall.Response) : Told CustomerCall.Answer :=
  ⟨.reply told.1, told.2⟩

/-- The request under this id and with this text is made for a draft of a task that was put as
being sent; `hr` is what the request was answered so far. -/
structure HandedOver (h : CustomerHistory) (id text : String) (hr : ReplyHistory) : Prop where
  draft : ∃ next task draft, PutTask h next task ∧ next.status = .sending ∧
    task.draft = some draft ∧ id = clientRequestId task draft ∧ text = jsTrim draft.text
  told : ∀ told ∈ hr, liftTold told ∈ h

/-- A reply under this id was delivered. -/
def DeliveredAs (h : CustomerHistory) (id : String) : Prop :=
  ∃ text hr, HandedOver h id text hr ∧ Delivered id hr

theorem clientRequestId_toList (task : CustomerServiceTask) (draft : CustomerReplyDraft) :
    ∃ mid last, (clientRequestId task draft).toList = 'c' :: (mid ++ [last]) ∧
      last.isDigit := by
  obtain ⟨digits, last, hdigits, hlast⟩ := natRepr_append_digit draft.version
  have hversion : (toString draft.version).toList = digits ++ [last] := hdigits
  have hprefix : "customer-service:".toList = 'c' :: "ustomer-service:".toList := by decide
  have hchars : (clientRequestId task draft).toList = 'c' :: (("ustomer-service:".toList ++
      task.id.toList ++ ":draft:".toList ++ digits) ++ [last]) := by
    unfold clientRequestId
    rw [String.toList_append, String.toList_append, String.toList_append, hversion, hprefix]
    simp only [List.cons_append, List.append_assoc]
  exact ⟨_, last, hchars, hlast⟩

/-- A request id is taken as it is. -/
theorem jsTrim_clientRequestId (task : CustomerServiceTask) (draft : CustomerReplyDraft) :
    jsTrim (clientRequestId task draft) = clientRequestId task draft := by
  obtain ⟨mid, last, hchars, hlast⟩ := clientRequestId_toList task draft
  unfold jsTrim
  rw [hchars, trimChars_of_ends mid rfl (isJsSpace_digit hlast), ← hchars, String.ofList_toList]

theorem present_clientRequestId (task : CustomerServiceTask) (draft : CustomerReplyDraft) :
    present (some (clientRequestId task draft)) = some (clientRequestId task draft) := by
  rw [present_some]
  refine ⟨rfl, ?_⟩
  intro hempty
  obtain ⟨mid, last, hchars, _⟩ := clientRequestId_toList task draft
  rw [hempty] at hchars
  cases hchars

/-! ## Query rounds -/

/-- The page that a continuation asks for. -/
def BusinessEvidence.continuation (evidence : BusinessEvidence) : Option String :=
  (present evidence.nextPage).map jsTrim

/-- Answers to a query for this page and to its continuations, one after the other. -/
def LinkedFrom : Option String → List GatewayAnswer → Prop
  | _, [] => True
  | page, answer :: rest =>
    answer.query.page = page ∧ LinkedFrom answer.evidence.continuation rest

/-- The page that is asked for after these answers, when they began with this one. -/
def pageAfter : Option String → List GatewayAnswer → Option String
  | page, [] => page
  | _, answer :: rest => pageAfter answer.evidence.continuation rest

theorem pageAfter_append (page : Option String) (answers : List GatewayAnswer)
    (answer : GatewayAnswer) :
    pageAfter page (answers ++ [answer]) = answer.evidence.continuation := by
  induction answers generalizing page with
  | nil => rfl
  | cons first rest ih => exact ih _

theorem linkedFrom_append (page : Option String) (answers : List GatewayAnswer)
    (answer : GatewayAnswer) :
    LinkedFrom page (answers ++ [answer]) ↔
      LinkedFrom page answers ∧ answer.query.page = pageAfter page answers := by
  induction answers generalizing page with
  | nil => simp [LinkedFrom, pageAfter]
  | cons first rest ih => rw [List.cons_append, LinkedFrom, LinkedFrom, ih, pageAfter, and_assoc]

def AnsweredBy (h : CustomerHistory) (answer : GatewayAnswer) : Prop :=
  ⟨.queryBusiness answer.query, .ok answer.evidence⟩ ∈ h

/-! ## Changes of a task -/

section Changes

variable (options : CustomerOptions) (direct : Prop)

/-- The changes that the operations make of a task. `direct` says that sendings may be recorded
without a delivery. -/
inductive Change (h : CustomerHistory) (task : CustomerServiceTask) :
    CustomerServiceTask → Asked → Prop where
  | search (contextSnapshotIds : List String) (contextEvidence : List CustomerContextEvidence)
      (continuations : List CustomerContextContinuation) :
      Change h task
        { task with
          status := .resolvingContext
          brief := { task.brief with contextSnapshotIds }
          contextEvidence
          continuations } .asBefore
  | read (contextEvidence : List CustomerContextEvidence)
      (continuations : List CustomerContextContinuation) (hstatus : task.status ≠ .sent) :
      Change h task { task with contextEvidence, continuations } .asBefore
  | brief (status : TaskStatus) (brief : CustomerTaskBrief)
      (hstatus : status = .readyForQuery ∨ status = .needsClarification) :
      Change h task { task with status, brief, businessEvidence := [], draft := none } .forgotten
  | querying : Change h task { task with status := .querying } .asBefore
  | page (before : CustomerServiceTask) (page : Option String) (query : CustomerBusinessQuery)
      (result : BusinessEvidence)
      (hbefore : task = before ∨ ∃ updatedAt,
        PutTask h { before with
          status := .querying, revision := before.revision + 1, updatedAt } task)
      (hcheck : checkPage before page = .ok ()) (hquery : businessQuery before page = .ok query)
      (hanswer : AnsweredBy h ⟨query, result⟩)
      (hvalid : validateGatewayEvidence options task query result = .ok ()) :
      Change h task (withPage task page result) (askedPage page ⟨query, result⟩)
  | draft (input : CreateDraftInput) (text createdAt : String)
      (claims : List CustomerReplyClaim) (hstatus : task.status = .verifying)
      (hclaims : draftClaims task input = .ok claims) (htext : jsTrim text = text) :
      Change h task (withDraft task input text createdAt claims) .asBefore
  | review (draft : CustomerReplyDraft) (input : ReviewDraftInput) (reviewedAt : String)
      (hdraft : task.draft = some draft) (hstatus : task.status = .awaitingReview)
      (hhuman : input.reviewer.actorType = .human) :
      Change h task (withReview task draft input reviewedAt) .asBefore
  | recheck (draft : CustomerReplyDraft) (fresh : List GatewayAnswer)
      (hdraft : task.draft = some draft) (hstatus : task.status = .approved)
      (hanswers : ∀ answer ∈ fresh, AnsweredBy h answer ∧
        validateGatewayEvidence options task answer.query answer.evidence = .ok ())
      (hlinked : LinkedFrom none fresh) (hne : fresh ≠ []) :
      Change h task (withFreshPages task draft (fresh.map (·.evidence))) (.again fresh)
  | sending (hstatus : task.status = .approved) :
      Change h task { task with status := .sending } .asBefore
  | release (hstatus : task.status = .sending) :
      Change h task { task with status := .approved } .asBefore
  | sent (draft : CustomerReplyDraft) (clientRequestId eventId sentAt : String)
      (hdraft : task.draft = some draft) (hstatus : task.status = .sending)
      (hrecord : direct ∨ DeliveredAs h clientRequestId) :
      Change h task (withSent task draft clientRequestId eventId sentAt) .asBefore

/-- A new task, or a change of a known one at its revision. -/
inductive PutAllowed (h : CustomerHistory) (next : CustomerServiceTask) :
    Option Nat → Asked → Prop where
  | opened (horg : next.orgId = options.orgId) (hstatus : next.status = .resolvingContext)
      (hpages : next.businessEvidence = []) (hdraft : next.draft = none) :
      PutAllowed h next none .forgotten
  | changed (task changed : CustomerServiceTask) (updatedAt : String) (asked : Asked)
      (htask : KnownTask h task) (hchange : Change options direct h task changed asked)
      (hnext : next = { changed with revision := task.revision + 1, updatedAt }) :
      PutAllowed h next (some task.revision) asked

def allowedCall (h : CustomerHistory) : CustomerCall → Prop
  | .putCustomerServiceTask next expected asked => PutAllowed options direct h next expected asked
  | .reply call => ∃ id text hr, HandedOver h id text hr ∧ mayCall id text hr call
  | _ => True

end Changes

/-! ## Longer histories -/

section Longer

variable {options : CustomerOptions} {direct : Prop} {h h' : CustomerHistory}
  {task next : CustomerServiceTask}

theorem ReadTask.mono (hread : ReadTask h task) (hsuffix : h <:+ h') : ReadTask h' task := by
  obtain ⟨taskId, hmem⟩ := hread
  exact ⟨taskId, hsuffix.subset hmem⟩

theorem PutTask.mono (hput : PutTask h next task) (hsuffix : h <:+ h') :
    PutTask h' next task := by
  obtain ⟨expected, asked, hmem⟩ := hput
  exact ⟨expected, asked, hsuffix.subset hmem⟩

theorem KnownTask.mono (hknown : KnownTask h task) (hsuffix : h <:+ h') : KnownTask h' task := by
  rcases hknown with hread | ⟨next, hput⟩
  · exact Or.inl (hread.mono hsuffix)
  · exact Or.inr ⟨next, hput.mono hsuffix⟩

theorem HandedOver.mono {id text : String} {hr : ReplyHistory} (hover : HandedOver h id text hr)
    (hsuffix : h <:+ h') : HandedOver h' id text hr := by
  obtain ⟨next, task, draft, hput, hrest⟩ := hover.draft
  exact ⟨⟨next, task, draft, hput.mono hsuffix, hrest⟩,
    fun told hmem => hsuffix.subset (hover.told told hmem)⟩

theorem DeliveredAs.mono {id : String} (hdelivered : DeliveredAs h id) (hsuffix : h <:+ h') :
    DeliveredAs h' id := by
  obtain ⟨text, hr, hover, hd⟩ := hdelivered
  exact ⟨text, hr, hover.mono hsuffix, hd⟩

theorem Change.mono {asked : Asked} (hchange : Change options direct h task next asked)
    (hsuffix : h <:+ h') : Change options direct h' task next asked := by
  cases hchange with
  | search ids evidence continuations => exact .search ids evidence continuations
  | read evidence continuations hstatus => exact .read evidence continuations hstatus
  | brief status brief hstatus => exact .brief status brief hstatus
  | querying => exact .querying
  | page before page query result hbefore hcheck hquery hanswer hvalid =>
    apply Change.page before page query result _ hcheck hquery (hsuffix.subset hanswer) hvalid
    rcases hbefore with rfl | ⟨updatedAt, hput⟩
    · exact Or.inl rfl
    · exact Or.inr ⟨updatedAt, hput.mono hsuffix⟩
  | draft input text createdAt claims hstatus hclaims htext =>
    exact .draft input text createdAt claims hstatus hclaims htext
  | review draft input reviewedAt hdraft hstatus hhuman =>
    exact .review draft input reviewedAt hdraft hstatus hhuman
  | recheck draft fresh hdraft hstatus hanswers hlinked hne =>
    apply Change.recheck draft fresh hdraft hstatus _ hlinked hne
    intro answer hmem
    exact ⟨hsuffix.subset (hanswers answer hmem).1, (hanswers answer hmem).2⟩
  | sending hstatus => exact .sending hstatus
  | release hstatus => exact .release hstatus
  | sent draft id eventId sentAt hdraft hstatus hrecord =>
    apply Change.sent draft id eventId sentAt hdraft hstatus
    exact hrecord.imp_right fun hdelivered => hdelivered.mono hsuffix

/-- A change leaves the task its own. -/
theorem Change.key {asked : Asked} (hchange : Change options direct h task next asked) :
    next.key = task.key := by
  cases hchange with
  | search ids evidence continuations => rfl
  | read evidence continuations hstatus => rfl
  | brief status brief hstatus => rfl
  | querying => rfl
  | page before page query result hbefore hcheck hquery hanswer hvalid => rfl
  | draft input text createdAt claims hstatus hclaims htext => rfl
  | review draft input reviewedAt hdraft hstatus hhuman => rfl
  | recheck draft fresh hdraft hstatus hanswers hlinked hne => rfl
  | sending hstatus => rfl
  | release hstatus => rfl
  | sent draft id eventId sentAt hdraft hstatus hrecord => rfl

end Longer

end Regenic.Customer
