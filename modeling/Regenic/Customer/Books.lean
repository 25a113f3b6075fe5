import Regenic.Customer.Requests

/-!
What the answers mean in the state: a task that was read or put is stored as it was, or with a
later revision; the channel accepted what a stored attempt says it accepted; and every intent of
the channel was handed over for a draft that a task was being sent with.
-/

namespace Regenic.Customer

open Lib Reply

/-! ## The task store -/

/-- What a put that is not refused does to the stored tasks. -/
inductive Stored (tasks : TaskTable) (next : CustomerServiceTask) :
    Option Nat → TaskTable → Prop where
  | opened (free : tasks.get? next.key = none) : Stored tasks next none (tasks.put next)
  | changed (current : CustomerServiceTask) (stored : tasks.get? next.key = some current)
      (hrevision : next.revision = current.revision + 1) :
      Stored tasks next (some current.revision) (tasks.put next)

theorem putCustomerServiceTask_ok {dateParse : DateParse} {tasks tasks' : TaskTable}
    {input task : CustomerServiceTask} {expectedRevision : Option Nat}
    (h : putCustomerServiceTask dateParse tasks input expectedRevision = .ok (task, tasks')) :
    task = input ∧ Stored tasks input expectedRevision tasks' := by
  unfold putCustomerServiceTask at h
  cases hvalid : validateCustomerServiceTask dateParse input with
  | error message =>
    rw [hvalid] at h
    cases h
  | ok valid =>
    obtain rfl := validateCustomerServiceTask_ok hvalid
    rw [hvalid] at h
    cases hget : tasks.get? valid.key with
    | none =>
      cases expectedRevision with
      | none =>
        simp only [hget, Except.ok.injEq, Prod.mk.injEq] at h
        obtain ⟨rfl, rfl⟩ := h
        exact ⟨rfl, .opened hget⟩
      | some expected =>
        simp only [hget] at h
        cases h
    | some current =>
      cases expectedRevision with
      | none =>
        simp only [hget] at h
        cases h
      | some expected =>
        simp only [hget] at h
        split at h
        · next hrevisions =>
          obtain ⟨rfl, hnext⟩ := hrevisions
          cases h
          exact ⟨rfl, .changed current hget hnext⟩
        · cases h

theorem getCustomerServiceTask_ok {dateParse : DateParse} {tasks : TaskTable}
    {orgId taskId : String} {task : CustomerServiceTask}
    (h : getCustomerServiceTask dateParse tasks orgId taskId = .ok (some task)) :
    tasks.get? (orgId, taskId) = some task := by
  unfold getCustomerServiceTask at h
  cases hget : tasks.get? (orgId, taskId) with
  | none =>
    rw [hget] at h
    cases h
  | some row =>
    rw [hget] at h
    dsimp only at h
    cases hvalid : validateCustomerServiceTask dateParse row with
    | error message =>
      rw [hvalid] at h
      cases h
    | ok valid =>
      rw [hvalid] at h
      cases h
      rw [validateCustomerServiceTask_ok hvalid]

theorem Stored.get? {tasks tasks' : TaskTable} {next : CustomerServiceTask}
    {expected : Option Nat} (h : Stored tasks next expected tasks') (key : String × String) :
    tasks'.get? key = if next.key = key then some next else tasks.get? key := by
  cases h with
  | opened free => exact Table.get?_put _ _ _
  | changed current stored hrevision => exact Table.get?_put _ _ _

/-! ## What the answers mean -/

/-- The task is stored, as it is or with a later revision. -/
structure TaskStands (s : CustomerState) (task : CustomerServiceTask) : Prop where
  stored : ∃ row, s.tasks.get? task.key = some row ∧ task.revision ≤ row.revision ∧
    (row.revision = task.revision → row = task)
  handed : ∀ pair ∈ task.handed, pair ∈ s.handed

/-- The channel has accepted a reply under this id. -/
def AcceptedAs (s : CustomerState) (id : String) : Prop :=
  ∃ intent ∈ s.accepted, intent.idempotencyKey = id

/-- The channel was called with this intent at this place. -/
def StartedAt (s : CustomerState) (intent : SendIntent) (index : Nat) : Prop :=
  s.intents[index]? = some intent

def AcceptedAt (s : CustomerState) (index : Nat) : Prop :=
  ∃ intent, StartedAt s intent index ∧ intent ∈ s.accepted

def replyStands : Told ReplyCall.Response → CustomerState → Prop
  | ⟨.startSend intent, .ok index⟩, s => StartedAt s intent index
  | ⟨.awaitSend index, .ok receipt⟩, s =>
    DeliveryReceipt.accepted receipt = true → AcceptedAt s index
  | ⟨.getOutboundAttempt _ id, .ok (some row)⟩, s =>
    row.status = .accepted ∨ row.status = .sent → AcceptedAs s id
  | _, _ => True

def stands : Told CustomerCall.Answer → CustomerState → Prop
  | ⟨.getCustomerServiceTask _, .ok (some task)⟩, s => TaskStands s task
  | ⟨.putCustomerServiceTask next _ _, .ok task⟩, s => task = next ∧ TaskStands s task
  | ⟨.queryBusiness query, .ok evidence⟩, s => ⟨query, evidence⟩ ∈ s.answered
  | ⟨.reply call, r⟩, s => replyStands ⟨call, r⟩ s
  | _, _ => True

/-- What holds of the reply side and of what was handed over. -/
structure Books (s : CustomerState) : Prop where
  handed : ∀ task ∈ s.tasks.rows, ∀ pair ∈ task.handed, pair ∈ s.handed
  calls : s.reply.sends.length = s.intents.length
  rows : ∀ row ∈ s.reply.attempts.rows, row.status = .accepted ∨ row.status = .sent →
    AcceptedAs s row.clientRequestId
  accepted : ∀ intent ∈ s.accepted, intent ∈ s.intents
  intents : ∀ intent ∈ s.intents, ∃ pair ∈ s.handed,
    intent.idempotencyKey = pair.1 ∧ intent.content.text = jsTrim pair.2

section Meaning

variable {h : CustomerHistory} {s : CustomerState} {task next : CustomerServiceTask}

theorem PutTask.stands (hput : PutTask h next task) (hh : AllStand stands h s) :
    task = next ∧ TaskStands s task := by
  obtain ⟨expected, asked, hmem⟩ := hput
  exact hh _ hmem

theorem KnownTask.stands (hknown : KnownTask h task) (hh : AllStand stands h s) :
    TaskStands s task := by
  rcases hknown with ⟨taskId, hmem⟩ | ⟨next, hput⟩
  · exact hh _ hmem
  · exact (hput.stands hh).2

/-- A known task whose revision is the stored one is what is stored. -/
theorem TaskStands.eq_stored (hstands : TaskStands s task) {current : CustomerServiceTask}
    (hstored : s.tasks.get? task.key = some current) (hrevision : current.revision = task.revision) :
    current = task := by
  obtain ⟨row, hrow, _, hsame⟩ := hstands.stored
  rw [hstored] at hrow
  cases hrow
  exact hsame hrevision

theorem HandedOver.pair {id text : String} {hr : ReplyHistory}
    (hover : HandedOver h id text hr) (hh : AllStand Customer.stands h s) :
    ∃ pair ∈ s.handed, id = pair.1 ∧ text = jsTrim pair.2 := by
  obtain ⟨next, task, draft, hput, hsending, hdraft, rfl, rfl⟩ := hover.draft
  obtain ⟨rfl, hstands⟩ := hput.stands hh
  have hhanded : task.handed = some (clientRequestId task draft, draft.text) := by
    unfold CustomerServiceTask.handed
    rw [if_pos hsending, hdraft]
    rfl
  exact ⟨_, hstands.handed _ hhanded, rfl, rfl⟩

theorem HandedOver.stands {id text : String} {hr : ReplyHistory}
    (hover : HandedOver h id text hr) (hh : AllStand Customer.stands h s) :
    AllStand replyStands hr s := by
  intro told htold
  exact hh _ (hover.told told htold)

/-- What was delivered to a request, the channel has accepted. -/
theorem delivered_accepted {id : String} {hr : ReplyHistory} (hdelivered : Delivered id hr)
    (hh : AllStand replyStands hr s) : AcceptedAs s id := by
  rcases hdelivered with ⟨intent, index, receipt, hstart, hid, hawait, haccepted⟩ |
    ⟨orgId, row, hread, hstatus⟩
  · have hstarted : StartedAt s intent index := hh _ hstart
    have hended : receipt.accepted = true → AcceptedAt s index := hh _ hawait
    obtain ⟨other, hother, hmem⟩ := hended haccepted
    unfold StartedAt at hstarted hother
    rw [hstarted] at hother
    cases hother
    exact ⟨intent, hmem, hid⟩
  · exact hh _ hread hstatus

theorem DeliveredAs.accepted {id : String} (hdelivered : DeliveredAs h id)
    (hh : AllStand stands h s) : AcceptedAs s id := by
  obtain ⟨text, hr, hover, hd⟩ := hdelivered
  exact delivered_accepted hd (hover.stands hh)

end Meaning

/-- What a put that is stored was made of: a new task, or a change of the stored one. -/
theorem PutAllowed.stored {options : CustomerOptions} {direct : Prop} {h : CustomerHistory}
    {s : CustomerState} {next : CustomerServiceTask} {expected : Option Nat} {asked : Asked}
    {tasks : TaskTable} (hput : PutAllowed options direct h next expected asked)
    (hh : AllStand stands h s) (hstored : Stored s.tasks next expected tasks) :
    (s.tasks.get? next.key = none ∧ next.orgId = options.orgId ∧
        next.status = .resolvingContext ∧ next.businessEvidence = [] ∧ next.draft = none ∧
        asked = .forgotten) ∨
      ∃ task changed updatedAt, s.tasks.get? next.key = some task ∧
        expected = some task.revision ∧ Change options direct h task changed asked ∧
        next = { changed with revision := task.revision + 1, updatedAt } := by
  cases hput with
  | opened horg hstatus hpages hdraft =>
    cases hstored with
    | opened free => exact Or.inl ⟨free, horg, hstatus, hpages, hdraft, rfl⟩
  | changed task changed updatedAt _ htask hchange hnext =>
    right
    have hkey : next.key = task.key := by
      rw [hnext]
      exact hchange.key
    generalize hexpected : some task.revision = expected at hstored
    cases hstored with
    | opened free => cases hexpected
    | changed current stored hrevision =>
      have hsame : current.revision = task.revision := (Option.some.inj hexpected).symm
      rw [hkey] at stored
      obtain rfl := (htask.stands hh).eq_stored stored hsame
      exact ⟨current, changed, updatedAt, hkey ▸ stored, rfl, hchange, hnext⟩

/-! ## Later states -/

/-- Tasks are only replaced by later revisions, and the logs only grow. -/
structure Later (s s' : CustomerState) : Prop where
  rows : ∀ key row, s.tasks.get? key = some row →
    ∃ row', s'.tasks.get? key = some row' ∧ (row' = row ∨ row.revision < row'.revision)
  handed : ∀ pair ∈ s.handed, pair ∈ s'.handed
  answered : ∀ answer ∈ s.answered, answer ∈ s'.answered
  intents : ∀ index intent, StartedAt s intent index → StartedAt s' intent index
  accepted : ∀ intent ∈ s.accepted, intent ∈ s'.accepted

section Later

variable {s s' : CustomerState}

theorem later_refl (s : CustomerState) : Later s s :=
  ⟨fun _ row hrow => ⟨row, hrow, Or.inl rfl⟩, fun _ h => h, fun _ h => h, fun _ _ h => h,
    fun _ h => h⟩

theorem Later.taskStands (hlater : Later s s') {task : CustomerServiceTask}
    (h : TaskStands s task) : TaskStands s' task := by
  obtain ⟨⟨row, hrow, hle, hsame⟩, hhanded⟩ := h
  obtain ⟨row', hrow', hcase⟩ := hlater.rows _ _ hrow
  refine ⟨⟨row', hrow', ?_⟩, fun pair hpair => hlater.handed _ (hhanded pair hpair)⟩
  rcases hcase with rfl | hlt
  · exact ⟨hle, hsame⟩
  · have hafter : task.revision < row'.revision := Nat.lt_of_le_of_lt hle hlt
    exact ⟨Nat.le_of_lt hafter, fun heq => absurd heq (Nat.ne_of_gt hafter)⟩

theorem Later.acceptedAs (hlater : Later s s') {id : String} (h : AcceptedAs s id) :
    AcceptedAs s' id := by
  obtain ⟨intent, hmem, hid⟩ := h
  exact ⟨intent, hlater.accepted _ hmem, hid⟩

theorem Later.replyStands (hlater : Later s s') (told : Told ReplyCall.Response)
    (h : Customer.replyStands told s) : Customer.replyStands told s' := by
  obtain ⟨c, r⟩ := told
  cases c with
  | getOutboundAttempt orgId id =>
    cases r with
    | error e => trivial
    | ok found =>
      cases found with
      | none => trivial
      | some row => exact fun hstatus => hlater.acceptedAs (h hstatus)
  | claimOutboundAttempt input => trivial
  | upsertOutboundAttempt input createdAt => trivial
  | startSend intent =>
    cases r with
    | error e => trivial
    | ok index => exact hlater.intents _ _ h
  | awaitSend index =>
    cases r with
    | error e => trivial
    | ok receipt =>
      intro haccepted
      obtain ⟨intent, hstarted, hmem⟩ := h haccepted
      exact ⟨intent, hlater.intents _ _ hstarted, hlater.accepted _ hmem⟩
  | outside call => trivial

theorem Later.stands (hlater : Later s s') (told : Told CustomerCall.Answer)
    (h : Customer.stands told s) : Customer.stands told s' := by
  obtain ⟨c, r⟩ := told
  cases c with
  | getCustomerServiceTask taskId =>
    cases r with
    | error thrown => trivial
    | ok found =>
      cases found with
      | none => trivial
      | some task => exact hlater.taskStands h
  | putCustomerServiceTask next expected asked =>
    cases r with
    | error thrown => trivial
    | ok task => exact ⟨h.1, hlater.taskStands h.2⟩
  | queryBusiness query =>
    cases r with
    | error thrown => trivial
    | ok evidence => exact hlater.answered _ h
  | outside question => trivial
  | reply call => exact hlater.replyStands ⟨call, r⟩ h

end Later

/-! ## Steps -/

section Steps

variable {options : CustomerOptions} {direct : Prop} {h : CustomerHistory} {s : CustomerState}

/-- What a call leaves, with what its answer then means. -/
structure StepKept (s : CustomerState) (c : CustomerCall) (w : CustomerEnv)
    (options : CustomerOptions) : Prop where
  books : Books (c.exec options w s).2
  told : stands ⟨c, (c.exec options w s).1⟩ (c.exec options w s).2
  later : Later s (c.exec options w s).2

theorem later_stored {tasks : TaskTable} {next : CustomerServiceTask} {expected : Option Nat}
    {asked : Asked} (hstored : Stored s.tasks next expected tasks) :
    Later s (s.stored tasks next asked) := by
  refine ⟨?_, fun pair hpair => List.mem_append_left _ hpair, fun _ ha => ha, fun _ _ hi => hi,
    fun _ ha => ha⟩
  intro key row hrow
  have hget := hstored.get? key
  by_cases hkey : next.key = key
  · rw [if_pos hkey] at hget
    subst hkey
    refine ⟨next, hget, Or.inr ?_⟩
    cases hstored with
    | opened free =>
      rw [free] at hrow
      cases hrow
    | changed current stored hrevision =>
      rw [stored] at hrow
      cases hrow
      omega
  · rw [if_neg hkey] at hget
    exact ⟨row, hget.trans hrow, Or.inl rfl⟩

theorem Books.stored (hbooks : Books s) {tasks : TaskTable} {next : CustomerServiceTask}
    {expected : Option Nat} {asked : Asked} (hstored : Stored s.tasks next expected tasks) :
    Books (s.stored tasks next asked) := by
  refine ⟨?_, hbooks.calls, hbooks.rows, hbooks.accepted, ?_⟩
  · intro task htask pair hpair
    have hget : tasks.get? task.key = some task := Table.get?_key htask
    rw [hstored.get?] at hget
    split at hget
    · cases hget
      exact List.mem_append_right _ (Option.mem_toList.mpr hpair)
    · have hold := (Table.get?_eq_some.mp hget).1
      exact List.mem_append_left _ (hbooks.handed task hold pair hpair)
  · intro intent hintent
    obtain ⟨pair, hpair, hsame⟩ := hbooks.intents intent hintent
    exact ⟨pair, List.mem_append_left _ hpair, hsame⟩

theorem taskStands_stored {tasks : TaskTable} {next : CustomerServiceTask}
    {expected : Option Nat} {asked : Asked} (hstored : Stored s.tasks next expected tasks) :
    TaskStands (s.stored tasks next asked) next := by
  have hget := hstored.get? next.key
  rw [if_pos rfl] at hget
  exact ⟨⟨next, hget, Nat.le_refl _, fun _ => rfl⟩,
    fun pair hpair => List.mem_append_right _ (Option.mem_toList.mpr hpair)⟩

theorem put_error {next : CustomerServiceTask} {expected : Option Nat} {asked : Asked}
    {dateParse : DateParse} {thrown : CustomerThrown}
    (hput : putCustomerServiceTask dateParse s.tasks next expected = .error thrown) :
    s.put dateParse next expected asked = (.error thrown, s) := by
  unfold CustomerState.put
  rw [hput]

theorem put_ok {next task : CustomerServiceTask} {expected : Option Nat} {asked : Asked}
    {dateParse : DateParse} {tasks : TaskTable}
    (hput : putCustomerServiceTask dateParse s.tasks next expected = .ok (task, tasks)) :
    s.put dateParse next expected asked = (.ok task, s.stored tasks task asked) := by
  unfold CustomerState.put
  rw [hput]

theorem putStep (hbooks : Books s) (next : CustomerServiceTask) (expected : Option Nat)
    (asked : Asked) (w : CustomerEnv) :
    StepKept s (.putCustomerServiceTask next expected asked) w options := by
  have hexec : CustomerCall.exec options (.putCustomerServiceTask next expected asked) w s =
      s.put options.dateParse next expected asked := rfl
  cases hput : putCustomerServiceTask options.dateParse s.tasks next expected with
  | error thrown =>
    rw [put_error hput] at hexec
    constructor
    · rw [hexec]
      exact hbooks
    · rw [hexec]
      trivial
    · rw [hexec]
      exact later_refl s
  | ok result =>
    obtain ⟨task, tasks⟩ := result
    obtain ⟨rfl, hstored⟩ := putCustomerServiceTask_ok hput
    rw [put_ok hput] at hexec
    constructor
    · rw [hexec]
      exact hbooks.stored hstored
    · rw [hexec]
      exact ⟨rfl, taskStands_stored hstored⟩
    · rw [hexec]
      exact later_stored hstored

theorem getStep (hbooks : Books s) (taskId : String) (w : CustomerEnv) :
    StepKept s (.getCustomerServiceTask taskId) w options := by
  refine ⟨hbooks, ?_, later_refl s⟩
  have hexec : CustomerCall.exec options (.getCustomerServiceTask taskId) w s =
      (getCustomerServiceTask options.dateParse s.tasks options.orgId taskId, s) := rfl
  rw [hexec]
  cases hget : getCustomerServiceTask options.dateParse s.tasks options.orgId taskId with
  | error thrown => trivial
  | ok found =>
    cases found with
    | none => trivial
    | some task =>
      have hrow := getCustomerServiceTask_ok hget
      obtain ⟨hmem, hkey⟩ := Table.get?_eq_some.mp hrow
      rw [← hkey] at hrow
      exact ⟨⟨task, hrow, Nat.le_refl _, fun _ => rfl⟩, hbooks.handed task hmem⟩

theorem businessStep (hbooks : Books s) (query : CustomerBusinessQuery) (w : CustomerEnv) :
    StepKept s (.queryBusiness query) w options := by
  have hexec : CustomerCall.exec options (.queryBusiness query) w s =
      s.answer query w.business := rfl
  cases hanswer : w.business with
  | error thrown =>
    rw [hanswer] at hexec
    constructor
    · rw [hexec]
      exact hbooks
    · rw [hexec]
      trivial
    · rw [hexec]
      exact later_refl s
  | ok evidence =>
    rw [hanswer] at hexec
    constructor
    · rw [hexec]
      exact ⟨hbooks.handed, hbooks.calls, hbooks.rows, hbooks.accepted, hbooks.intents⟩
    · rw [hexec]
      exact List.mem_append_right _ List.mem_cons_self
    · rw [hexec]
      exact ⟨(later_refl s).rows, fun _ hp => hp, fun _ ha => List.mem_append_left _ ha,
        fun _ _ hi => hi, fun _ ha => ha⟩

/-! ### Calls of the reply service -/

theorem withFault_state {β : Type} (fault : Option StoreFault) (r : ReplyState)
    (result : β × ReplyState) :
    (withFault fault r result).2 = r ∨ (withFault fault r result).2 = result.2 := by
  cases fault with
  | none => exact Or.inr rfl
  | some fault =>
    cases fault with
    | before e => exact Or.inl rfl
    | after e => exact Or.inr rfl

theorem withFault_ok {β : Type} {fault : Option StoreFault} {r : ReplyState}
    {result : β × ReplyState} {b : β} (hok : (withFault fault r result).1 = .ok b) :
    result.1 = b := by
  cases fault with
  | none =>
    cases hok
    rfl
  | some fault =>
    cases fault with
    | before e => cases hok
    | after e => cases hok

/-- Attempts that say no more than those before them, or what the channel has accepted. -/
theorem Books.withAttempts (hbooks : Books s) {attempts : OutboundAttempts}
    (hrows : ∀ row ∈ attempts.rows, row.status = .accepted ∨ row.status = .sent →
      row ∈ s.reply.attempts.rows ∨ AcceptedAs s row.clientRequestId) :
    Books { s with reply := { s.reply with attempts } } := by
  refine ⟨hbooks.handed, hbooks.calls, ?_, hbooks.accepted, hbooks.intents⟩
  intro row hrow hstatus
  rcases hrows row hrow hstatus with hold | haccepted
  · exact hbooks.rows row hold hstatus
  · exact haccepted

theorem later_reply (s : CustomerState) (reply : ReplyState) : Later s { s with reply } :=
  ⟨(later_refl s).rows, fun _ hp => hp, fun _ ha => ha, fun _ _ hi => hi, fun _ ha => ha⟩

theorem claim_rows {attempts : OutboundAttempts} {input : NewOutboundAttempt}
    {row : OutboundAttempt} (hrow : row ∈ (attempts.claimOutboundAttempt input).2.rows)
    (hstatus : row.status = .accepted ∨ row.status = .sent) : row ∈ attempts.rows := by
  have hput : ∀ claimed : OutboundAttempt, claimed.status = .pending →
      row ∈ (attempts.put claimed).rows → row ∈ attempts.rows := by
    intro claimed hpending hmem
    rcases Table.mem_put.mp hmem with rfl | ⟨hold, _⟩
    · rw [hpending] at hstatus
      rcases hstatus with h | h
      · cases h
      · cases h
    · exact hold
  unfold OutboundAttempts.claimOutboundAttempt at hrow
  split at hrow
  · exact hput _ rfl hrow
  · split at hrow
    · exact hput _ rfl hrow
    · exact hrow

/-- A reply call on the attempts alone. -/
theorem attemptsStep (hbooks : Books s) {call : ReplyCall} {w : CustomerEnv}
    (hsent : s.sent call w.reply = s)
    (hstate : Books { s with reply := (call.exec w.reply s.reply).2 })
    (htold : replyStands ⟨call, (call.exec w.reply s.reply).1⟩
      { s with reply := (call.exec w.reply s.reply).2 }) :
    StepKept s (.reply call) w options := by
  have hexec : CustomerCall.exec options (.reply call) w s =
      ((call.exec w.reply s.reply).1, { s with reply := (call.exec w.reply s.reply).2 }) := by
    change ((call.exec w.reply s.reply).1,
      { s.sent call w.reply with reply := (call.exec w.reply s.reply).2 }) = _
    rw [hsent]
  constructor
  · rw [hexec]
    exact hstate
  · rw [hexec]
    exact htold
  · rw [hexec]
    exact later_reply s _

theorem readStep (hbooks : Books s) (orgId id : String) (w : CustomerEnv) :
    StepKept s (.reply (.getOutboundAttempt orgId id)) w options := by
  have hsame : ((ReplyCall.getOutboundAttempt orgId id).exec w.reply s.reply).2 = s.reply := by
    rcases withFault_state w.reply.fault s.reply
      (s.reply.attempts.getOutboundAttempt orgId id, s.reply) with h | h
    · exact h
    · exact h
  apply attemptsStep hbooks rfl
  · rw [hsame]
    exact hbooks
  · rw [hsame]
    cases hanswer : ((ReplyCall.getOutboundAttempt orgId id).exec w.reply s.reply).1 with
    | error e => trivial
    | ok found =>
      have hfound : s.reply.attempts.getOutboundAttempt orgId id = found := withFault_ok hanswer
      cases found with
      | none => trivial
      | some row =>
        intro hstatus
        obtain ⟨stored, hstored, hrow⟩ := Option.map_eq_some_iff.mp hfound
        obtain ⟨hmem, hkey⟩ := Table.get?_eq_some.mp hstored
        have haccepted := hbooks.rows stored hmem (by
          rw [← hrow] at hstatus
          exact hstatus)
        have hid : stored.clientRequestId = id := (Prod.ext_iff.mp hkey).2
        rwa [hid] at haccepted

theorem claimStep (hbooks : Books s) (input : NewOutboundAttempt) (w : CustomerEnv) :
    StepKept s (.reply (.claimOutboundAttempt input)) w options := by
  apply attemptsStep hbooks rfl
  · rcases withFault_state w.reply.fault s.reply
      ((s.reply.attempts.claimOutboundAttempt input).1,
        { s.reply with attempts := (s.reply.attempts.claimOutboundAttempt input).2 })
      with h | h
    · have hsame : ((ReplyCall.claimOutboundAttempt input).exec w.reply s.reply).2 = s.reply := h
      rw [hsame]
      exact hbooks
    · have hclaimed : ((ReplyCall.claimOutboundAttempt input).exec w.reply s.reply).2 =
          { s.reply with attempts := (s.reply.attempts.claimOutboundAttempt input).2 } := h
      rw [hclaimed]
      exact hbooks.withAttempts fun row hrow hstatus => Or.inl (claim_rows hrow hstatus)
  · trivial

theorem upsertStep (hbooks : Books s) {input : OutboundAttemptPut} {createdAt : String}
    (hput : input.status = .rejected ∨ AcceptedAs s input.clientRequestId) (w : CustomerEnv) :
    StepKept s (.reply (.upsertOutboundAttempt input createdAt)) w options := by
  apply attemptsStep hbooks rfl
  · rcases withFault_state w.reply.fault s.reply
      ((), { s.reply with
        attempts := s.reply.attempts.upsertOutboundAttempt input createdAt }) with h | h
    · have hsame :
          ((ReplyCall.upsertOutboundAttempt input createdAt).exec w.reply s.reply).2 = s.reply := h
      rw [hsame]
      exact hbooks
    · have hstored :
          ((ReplyCall.upsertOutboundAttempt input createdAt).exec w.reply s.reply).2 =
            { s.reply with
              attempts := s.reply.attempts.upsertOutboundAttempt input createdAt } := h
      rw [hstored]
      apply hbooks.withAttempts
      intro row hrow hstatus
      rcases Table.mem_put.mp hrow with rfl | ⟨hold, _⟩
      · right
        apply hput.resolve_left
        intro hrejected
        have hnow : input.status = .accepted ∨ input.status = .sent := hstatus
        rw [hrejected] at hnow
        rcases hnow with h | h
        · cases h
        · cases h
      · exact Or.inl hold
  · trivial

theorem startStep (hbooks : Books s) {intent : SendIntent}
    (hpair : ∃ pair ∈ s.handed,
      intent.idempotencyKey = pair.1 ∧ intent.content.text = jsTrim pair.2) (w : CustomerEnv) :
    StepKept s (.reply (.startSend intent)) w options := by
  refine ⟨⟨hbooks.handed, ?_, hbooks.rows, ?_, ?_⟩, ?_, ?_⟩
  · change (s.reply.sends ++ [_]).length = (s.intents ++ [intent]).length
    simp only [List.length_append, List.length_singleton, hbooks.calls]
  · intro other hother
    exact List.mem_append_left _ (hbooks.accepted other hother)
  · intro other hother
    rcases List.mem_append.mp hother with hold | hnew
    · exact hbooks.intents other hold
    · rw [List.mem_singleton.mp hnew]
      exact hpair
  · change (s.intents ++ [intent])[s.reply.sends.length]? = some intent
    rw [hbooks.calls, List.getElem?_concat_length]
  · refine ⟨(later_refl s).rows, fun _ hp => hp, fun _ ha => ha, ?_, fun _ ha => ha⟩
    intro index other hstarted
    have hlt : index < s.intents.length := (List.getElem?_eq_some_iff.mp hstarted).1
    exact (List.getElem?_append_left hlt).trans hstarted

theorem Books.settled (hbooks : Books s) {intents : List SendIntent}
    (hintents : ∀ intent ∈ intents, intent ∈ s.intents) (index : Nat)
    (outcome : Except Thrown DeliveryReceipt) :
    Books { s with
      accepted := s.accepted ++ intents, reply := s.reply.settle index outcome } := by
  refine ⟨hbooks.handed, ?_, ?_, ?_, hbooks.intents⟩
  · change (s.reply.sends.modify index _).length = _
    rw [List.length_modify, hbooks.calls]
  · intro row hrow hstatus
    obtain ⟨intent, hmem, hid⟩ := hbooks.rows row hrow hstatus
    exact ⟨intent, List.mem_append_left _ hmem, hid⟩
  · intro intent hmem
    rcases List.mem_append.mp hmem with hold | hnew
    · exact hbooks.accepted intent hold
    · exact hintents intent hnew

/-- The end of a send adds its intent to what was accepted, when the receipt says so. -/
theorem sent_awaitSend {intent : SendIntent} {index : Nat} (hstarted : StartedAt s intent index)
    (env : ReplyEnv) :
    ∃ newly, s.sent (.awaitSend index) env = { s with accepted := s.accepted ++ newly } ∧
      (∀ other ∈ newly, other ∈ s.intents) ∧
      ∀ receipt, env.sendOutcome = .ok receipt → receipt.accepted = true → intent ∈ newly := by
  unfold CustomerState.sent
  cases houtcome : env.sendOutcome with
  | error e =>
    refine ⟨[], ?_, nofun, nofun⟩
    simp only [houtcome, List.append_nil]
  | ok receipt =>
    cases haccepted : receipt.accepted with
    | false =>
      refine ⟨[], ?_, nofun, ?_⟩
      · simp only [houtcome, haccepted, Bool.false_eq_true, if_false, List.append_nil]
      · intro other hother hyes
        cases hother
        rw [haccepted] at hyes
        cases hyes
    | true =>
      have hintent : s.intents[index]?.toList = [intent] := congrArg Option.toList hstarted
      refine ⟨[intent], ?_, ?_, ?_⟩
      · simp only [houtcome, haccepted, if_true, hintent]
      · intro other hother
        rw [List.mem_singleton.mp hother]
        exact List.mem_of_getElem? hstarted
      · intro other _ _
        exact List.mem_cons_self

theorem awaitStep (hbooks : Books s) {intent : SendIntent} {index : Nat}
    (hstarted : StartedAt s intent index) (w : CustomerEnv) :
    StepKept s (.reply (.awaitSend index)) w options := by
  obtain ⟨newly, hsent, hintents, haccepts⟩ := sent_awaitSend hstarted w.reply
  have hexec : CustomerCall.exec options (.reply (.awaitSend index)) w s =
      (w.reply.sendOutcome, { s with
        accepted := s.accepted ++ newly
        reply := s.reply.settle index w.reply.sendOutcome }) := by
    change (w.reply.sendOutcome,
      { s.sent (.awaitSend index) w.reply with
        reply := s.reply.settle index w.reply.sendOutcome }) = _
    rw [hsent]
  constructor
  · rw [hexec]
    exact hbooks.settled hintents index _
  · rw [hexec]
    cases houtcome : w.reply.sendOutcome with
    | error e => trivial
    | ok receipt =>
      intro haccepted
      exact ⟨intent, hstarted, List.mem_append_right _ (haccepts receipt houtcome haccepted)⟩
  · rw [hexec]
    exact ⟨(later_refl s).rows, fun _ hp => hp, fun _ ha => ha, fun _ _ hi => hi,
      fun _ ha => List.mem_append_left _ ha⟩

/-- Every call of the discipline keeps the books, its answer means what it says, and what stood
before it still stands. -/
theorem stepKept (hbooks : Books s) (hh : AllStand stands h s) (c : CustomerCall)
    (hc : allowedCall options direct h c) (w : CustomerEnv) : StepKept s c w options := by
  cases c with
  | getCustomerServiceTask taskId => exact getStep hbooks taskId w
  | putCustomerServiceTask next expected asked => exact putStep hbooks next expected asked w
  | queryBusiness query => exact businessStep hbooks query w
  | outside question => exact ⟨hbooks, trivial, later_refl s⟩
  | reply call =>
    obtain ⟨id, text, hr, hover, hcall⟩ := hc
    have hreply := hover.stands hh
    cases call with
    | getOutboundAttempt orgId id' => exact readStep hbooks orgId id' w
    | claimOutboundAttempt input => exact claimStep hbooks input w
    | upsertOutboundAttempt input createdAt =>
      apply upsertStep hbooks
      rcases hcall with hrejected | ⟨hid, hdelivered⟩
      · exact Or.inl hrejected
      · rw [hid]
        exact Or.inr (delivered_accepted hdelivered hreply)
    | startSend intent =>
      obtain ⟨pair, hpair, hid, htext⟩ := hover.pair hh
      exact startStep hbooks ⟨pair, hpair, hcall.1.trans hid, hcall.2.trans htext⟩ w
    | awaitSend index =>
      obtain ⟨intent, hstarted⟩ := hcall
      exact awaitStep hbooks (hreply _ hstarted) w
    | outside call => exact attemptsStep hbooks rfl hbooks trivial

end Steps

end Regenic.Customer
