import Regenic.Customer.Approved

/-!
A task that is sent was sent with its own text: no two texts are handed over under one request
id, and a task is marked as sent under an id that the channel has accepted its text with. The
version that a request id is made of begins again when a draft is dropped, so this rests on new
drafts not taking an id that another text was handed over with.
-/

namespace Regenic.Customer

open Lib Reply

/-! ## What is sent -/

/-- The channel has accepted this text under this id. -/
def AcceptedText (s : CustomerState) (id text : String) : Prop :=
  ∃ intent ∈ s.accepted, intent.idempotencyKey = id ∧ intent.content.text = text

structure SentWithOwnText (s : CustomerState) : Prop where
  requestIds : ∀ pair ∈ s.handed, ∀ other ∈ s.handed, pair.1 = other.1 → pair.2 = other.2
  sent : ∀ task ∈ s.tasks.rows, task.status = .sent →
    ∃ draft sent, task.draft = some draft ∧ draft.sent = some sent ∧
      AcceptedText s sent.clientRequestId draft.text

/-- A new draft does not get the request id of a text that was handed over before, and a sending
is recorded under the request id of the draft that is stored. -/
def KeepsRequestIds (handed : List (String × String)) (stored next : CustomerServiceTask) :
    Prop :=
  ∀ draft ∈ next.draft,
    (stored.status = .verifying → next.status = .awaitingReview →
      ∀ pair ∈ handed, pair.1 = clientRequestId stored draft → pair.2 = draft.text) ∧
    (stored.status = .sending → next.status = .sent →
      ∀ sent ∈ draft.sent, sent.clientRequestId = clientRequestId stored draft)

instance (handed : List (String × String)) (stored next : CustomerServiceTask) :
    Decidable (KeepsRequestIds handed stored next) :=
  inferInstanceAs (Decidable (∀ draft ∈ next.draft, _ ∧ _))

/-- A put that is stored keeps to the request ids. -/
def OwnRequestIds : CustomerCall → CustomerEnv → CustomerState → Prop
  | .putCustomerServiceTask next expected _, _, s =>
    ∀ stored ∈ s.tasks.get? next.key, expected = some stored.revision →
      KeepsRequestIds s.handed stored next
  | _, _, _ => True

instance (c : CustomerCall) (w : CustomerEnv) (s : CustomerState) :
    Decidable (OwnRequestIds c w s) :=
  match c with
  | .putCustomerServiceTask next expected _ =>
    inferInstanceAs (Decidable (∀ stored ∈ s.tasks.get? next.key,
      expected = some stored.revision → _))
  | .getCustomerServiceTask _ | .queryBusiness _ | .outside _ | .reply _ => isTrue trivial

/-! ## Request ids -/

theorem clientRequestId_chars (task : CustomerServiceTask) (draft : CustomerReplyDraft) :
    (clientRequestId task draft).toList.reverse =
      (toString draft.version).toList.reverse ++
        ':' :: (":draft".toList.reverse ++ task.id.toList.reverse ++
          "customer-service:".toList.reverse) := by
  have hlabel : ":draft:".toList = ":draft".toList ++ [':'] := by decide
  unfold clientRequestId
  rw [String.toList_append, String.toList_append, String.toList_append, hlabel]
  simp only [List.reverse_append, List.reverse_cons, List.nil_append, List.append_assoc,
    List.cons_append]

theorem colon_not_digit {n : Nat} : ':' ∉ (toString n).toList.reverse := by
  intro hmem
  have hdigit : (':' : Char).isDigit = true := natRepr_digits (List.mem_reverse.mp hmem)
  exact absurd hdigit (by decide)

/-- A request id names the task and the version of its draft. -/
theorem clientRequestId_id {task other : CustomerServiceTask} {draft draft' : CustomerReplyDraft}
    (h : clientRequestId task draft = clientRequestId other draft') : task.id = other.id := by
  have hchars := congrArg (fun id => id.toList.reverse) h
  simp only [clientRequestId_chars] at hchars
  have hrest := (append_separator_inj colon_not_digit colon_not_digit hchars).2
  rw [List.append_assoc, List.append_assoc] at hrest
  have hids := List.append_cancel_right (List.append_cancel_left hrest)
  exact String.toList_inj.mp (List.reverse_injective hids)

theorem clientRequestId_congr {task other : CustomerServiceTask}
    {draft draft' : CustomerReplyDraft} (hid : task.id = other.id)
    (hversion : draft.version = draft'.version) :
    clientRequestId task draft = clientRequestId other draft' := by
  unfold clientRequestId
  rw [hid, hversion]

theorem mem_handed {task : CustomerServiceTask} {pair : String × String}
    (hpair : pair ∈ task.handed) :
    ∃ draft, task.draft = some draft ∧ pair = (clientRequestId task draft, draft.text) := by
  unfold CustomerServiceTask.handed at hpair
  split at hpair
  · obtain ⟨draft, hdraft, rfl⟩ := Option.map_eq_some_iff.mp hpair
    exact ⟨draft, hdraft, rfl⟩
  · cases hpair

/-! ## Changes -/

section Changes

variable {options : CustomerOptions} {h : CustomerHistory} {task changed : CustomerServiceTask}
  {asked : Asked}

/-- A new draft is made, with a text that is trimmed. -/
structure DraftMade (task changed : CustomerServiceTask) (draft : CustomerReplyDraft) : Prop where
  before : task.status = .verifying
  after : changed.status = .awaitingReview
  trimmed : jsTrim draft.text = draft.text

/-- The draft of the task before, under the same version and with the same text. -/
def DraftKept (task : CustomerServiceTask) (draft : CustomerReplyDraft) : Prop :=
  ∃ before, task.draft = some before ∧ draft.version = before.version ∧ draft.text = before.text

theorem Change.draft_cases {direct : Prop} (hchange : Change options direct h task changed asked)
    {draft : CustomerReplyDraft} (hdraft : changed.draft = some draft) :
    DraftKept task draft ∨ DraftMade task changed draft := by
  cases hchange with
  | search ids evidence continuations => exact Or.inl ⟨draft, hdraft, rfl, rfl⟩
  | read evidence continuations hstatus => exact Or.inl ⟨draft, hdraft, rfl, rfl⟩
  | brief status brief hstatus => cases hdraft
  | querying => exact Or.inl ⟨draft, hdraft, rfl, rfl⟩
  | page before page query result hbefore hcheck hquery hanswer hvalid => cases hdraft
  | draft input text createdAt claims hstatus hclaims htext =>
    cases hdraft
    exact Or.inr ⟨hstatus, rfl, htext⟩
  | review before input reviewedAt hbefore hstatus hhuman =>
    cases hdraft
    exact Or.inl ⟨before, hbefore, rfl, rfl⟩
  | recheck before fresh hbefore hstatus hanswers hlinked hne =>
    cases hdraft
    exact Or.inl ⟨before, hbefore, rfl, rfl⟩
  | sending hstatus => exact Or.inl ⟨draft, hdraft, rfl, rfl⟩
  | release hstatus => exact Or.inl ⟨draft, hdraft, rfl, rfl⟩
  | sent before id eventId sentAt hbefore hstatus hrecord =>
    cases hdraft
    exact Or.inl ⟨before, hbefore, rfl, rfl⟩

/-- A task becomes sent by a record of a delivery of it. -/
theorem Change.sent_cases (hchange : Change options False h task changed asked)
    (hsent : changed.status = .sent) :
    task.status = .sending ∧ ∃ draft sent, task.draft = some draft ∧
      changed.draft = some { draft with sent := some sent } ∧
      DeliveredAs h sent.clientRequestId := by
  cases hchange with
  | search ids evidence continuations => cases hsent
  | read evidence continuations hstatus => exact absurd hsent hstatus
  | brief status brief hstatus =>
    have hstatus' : status = .sent := hsent
    rcases hstatus with rfl | rfl
    · cases hstatus'
    · cases hstatus'
  | querying => cases hsent
  | page before page query result hbefore hcheck hquery hanswer hvalid =>
    have hstatus : (withPage task page result).status = .sent := hsent
    unfold withPage at hstatus
    dsimp only at hstatus
    split at hstatus
    · cases hstatus
    · cases hstatus
  | draft input text createdAt claims hstatus hclaims htext => cases hsent
  | review before input reviewedAt hbefore hstatus hhuman =>
    have hnow : (withReview task before input reviewedAt).status = .sent := hsent
    unfold withReview at hnow
    dsimp only at hnow
    split at hnow
    · cases hnow
    · cases hnow
  | recheck before fresh hbefore hstatus hanswers hlinked hne => cases hsent
  | sending hstatus => cases hsent
  | release hstatus => cases hsent
  | sent draft id eventId sentAt hdraft hstatus hrecord =>
    exact ⟨hstatus, draft, _, hdraft, rfl, hrecord.resolve_left False.elim⟩

end Changes

/-! ## The invariant -/

/-- The draft of a stored task has the text of whatever was handed over under its request id. -/
structure DraftSound (handed : List (String × String)) (task : CustomerServiceTask)
    (draft : CustomerReplyDraft) : Prop where
  trimmed : jsTrim draft.text = draft.text
  texts : ∀ pair ∈ handed, pair.1 = clientRequestId task draft → pair.2 = draft.text

structure TextsSound (options : CustomerOptions) (s : CustomerState) : Prop where
  books : Books s
  orgs : ∀ task ∈ s.tasks.rows, task.orgId = options.orgId
  drafts : ∀ task ∈ s.tasks.rows, ∀ draft, task.draft = some draft → DraftSound s.handed task draft
  own : SentWithOwnText s

section Invariant

variable {options : CustomerOptions} {h : CustomerHistory} {s : CustomerState}
  {task next changed : CustomerServiceTask} {asked : Asked}

/-- A text that the channel has accepted under a request id is the one handed over under it. -/
theorem AcceptedAs.text (hbooks : Books s) {draft : CustomerReplyDraft}
    (hdraft : DraftSound s.handed task draft)
    (haccepted : AcceptedAs s (clientRequestId task draft)) :
    AcceptedText s (clientRequestId task draft) draft.text := by
  obtain ⟨intent, hmem, hid⟩ := haccepted
  obtain ⟨pair, hpair, hkey, htext⟩ := hbooks.intents intent (hbooks.accepted intent hmem)
  have hsame : pair.2 = draft.text := hdraft.texts pair hpair (hkey.symm.trans hid)
  refine ⟨intent, hmem, hid, ?_⟩
  rw [htext, hsame, hdraft.trimmed]

/-- A change gives the next task a draft as sound as the one that it had. -/
theorem DraftSound.change (hold : ∀ draft, task.draft = some draft →
      DraftSound s.handed task draft)
    (hchange : Change options False h task changed asked)
    (hkeeps : KeepsRequestIds s.handed task changed) {draft : CustomerReplyDraft}
    (hdraft : changed.draft = some draft) : DraftSound s.handed changed draft := by
  have hid : changed.id = task.id := (Prod.ext_iff.mp hchange.key).2
  rcases hchange.draft_cases hdraft with ⟨before, hbefore, hversion, htext⟩ | hmade
  · have hsound := hold before hbefore
    constructor
    · rw [htext]
      exact hsound.trimmed
    · intro pair hpair hkey
      rw [htext]
      exact hsound.texts pair hpair (hkey.trans (clientRequestId_congr hid hversion))
  · constructor
    · exact hmade.trimmed
    · intro pair hpair hkey
      exact (hkeeps draft hdraft).1 hmade.before hmade.after pair hpair
        (hkey.trans (clientRequestId_congr hid rfl))

/-- The next task is sent with a text that was accepted, when it is sent. -/
theorem sent_change (hbooks : Books s) (hh : AllStand stands h s)
    (hold : ∀ draft, task.draft = some draft → DraftSound s.handed task draft)
    (hchange : Change options False h task changed asked)
    (hkeeps : KeepsRequestIds s.handed task changed) (hsent : changed.status = .sent) :
    ∃ draft sent, changed.draft = some draft ∧ draft.sent = some sent ∧
      AcceptedText s sent.clientRequestId draft.text := by
  obtain ⟨hsending, draft, sent, hdraft, hnow, hdelivered⟩ := hchange.sent_cases hsent
  have hid : sent.clientRequestId = clientRequestId task draft :=
    (hkeeps _ hnow).2 hsending hsent sent rfl
  have haccepted := hdelivered.accepted hh
  rw [hid] at haccepted
  refine ⟨_, sent, hnow, rfl, ?_⟩
  rw [hid]
  exact haccepted.text hbooks (hold draft hdraft)

/-! ### Puts -/

/-- What is handed over with the next task goes with its own draft. -/
theorem DraftSound.stored (hnext : ∀ draft, next.draft = some draft →
      DraftSound s.handed next draft) {draft : CustomerReplyDraft}
    (hdraft : next.draft = some draft) :
    DraftSound (s.handed ++ next.handed.toList) next draft := by
  refine ⟨(hnext draft hdraft).trimmed, ?_⟩
  intro pair hpair hkey
  rcases List.mem_append.mp hpair with hold | hnew
  · exact (hnext draft hdraft).texts pair hold hkey
  · obtain ⟨draft', hdraft', rfl⟩ := mem_handed (Option.mem_toList.mp hnew)
    rw [hdraft] at hdraft'
    cases hdraft'
    rfl

/-- What is handed over with another task does not go with this one's request ids. -/
theorem DraftSound.other {draft : CustomerReplyDraft} (hsound : DraftSound s.handed task draft)
    (hid : task.id ≠ next.id) : DraftSound (s.handed ++ next.handed.toList) task draft := by
  refine ⟨hsound.trimmed, ?_⟩
  intro pair hpair hkey
  rcases List.mem_append.mp hpair with hold | hnew
  · exact hsound.texts pair hold hkey
  · obtain ⟨draft', _, rfl⟩ := mem_handed (Option.mem_toList.mp hnew)
    exact absurd (clientRequestId_id hkey).symm hid

theorem SentWithOwnText.requestIds_stored (hown : SentWithOwnText s)
    (hnext : ∀ draft, next.draft = some draft → DraftSound s.handed next draft) :
    ∀ pair ∈ s.handed ++ next.handed.toList, ∀ other ∈ s.handed ++ next.handed.toList,
      pair.1 = other.1 → pair.2 = other.2 := by
  have hwith : ∀ pair ∈ s.handed, ∀ other ∈ next.handed, pair.1 = other.1 →
      pair.2 = other.2 := by
    intro pair hpair other hother hkey
    obtain ⟨draft, hdraft, rfl⟩ := mem_handed hother
    exact (hnext draft hdraft).texts pair hpair hkey
  intro pair hpair other hother hkey
  rcases List.mem_append.mp hpair with hold | hnew
  · rcases List.mem_append.mp hother with hold' | hnew'
    · exact hown.requestIds pair hold other hold' hkey
    · exact hwith pair hold other (Option.mem_toList.mp hnew') hkey
  · rcases List.mem_append.mp hother with hold' | hnew'
    · exact (hwith other hold' pair (Option.mem_toList.mp hnew) hkey.symm).symm
    · have hsame := (Option.mem_toList.mp hnew).symm.trans (Option.mem_toList.mp hnew')
      rw [Option.some.inj hsame]

/-- The next task is as sound as its text is kept. -/
structure NextSound (options : CustomerOptions) (s : CustomerState)
    (next : CustomerServiceTask) : Prop where
  org : next.orgId = options.orgId
  draft : ∀ draft, next.draft = some draft → DraftSound s.handed next draft
  sent : next.status = .sent → ∃ draft sent, next.draft = some draft ∧
    draft.sent = some sent ∧ AcceptedText s sent.clientRequestId draft.text

theorem TextsSound.nextSound (hs : TextsSound options s) (hh : AllStand stands h s)
    {expected : Option Nat} {tasks : TaskTable}
    (hput : PutAllowed options False h next expected asked)
    (hstored : Stored s.tasks next expected tasks)
    (hkeeps : ∀ stored ∈ s.tasks.get? next.key, expected = some stored.revision →
      KeepsRequestIds s.handed stored next) : NextSound options s next := by
  rcases hput.stored hh hstored with ⟨_, horg, hstatus, _, hdraft, _⟩ |
    ⟨task, changed, updatedAt, hold, hexpected, hchange, rfl⟩
  · refine ⟨horg, ?_, ?_⟩
    · intro draft hsome
      rw [hdraft] at hsome
      cases hsome
    · intro hsent
      rw [hstatus] at hsent
      cases hsent
  · obtain ⟨hmem, _⟩ := Table.get?_eq_some.mp hold
    have hkept : KeepsRequestIds s.handed task changed := hkeeps task hold hexpected
    have hdrafts := hs.drafts task hmem
    constructor
    · exact (Prod.ext_iff.mp hchange.key).1.trans (hs.orgs task hmem)
    · intro draft hdraft
      have hsound : DraftSound s.handed changed draft :=
        DraftSound.change hdrafts hchange hkept hdraft
      exact ⟨hsound.trimmed, hsound.texts⟩
    · intro hsent
      obtain ⟨draft, sent, hdraft, hrecord⟩ :=
        sent_change hs.books hh hdrafts hchange hkept hsent
      exact ⟨draft, sent, hdraft, hrecord⟩

theorem TextsSound.put (hs : TextsSound options s) {expected : Option Nat} {tasks : TaskTable}
    (hstored : Stored s.tasks next expected tasks) (hnext : NextSound options s next) :
    TextsSound options (s.stored tasks next asked) := by
  -- A stored task is the one that was put, or another one that was stored before.
  have hrows : ∀ task ∈ tasks.rows, task = next ∨ task ∈ s.tasks.rows ∧ task.key ≠ next.key := by
    intro task htask
    have hget : tasks.get? task.key = some task := Table.get?_key htask
    rw [hstored.get?] at hget
    split at hget
    · cases hget
      exact Or.inl rfl
    · next hkey => exact Or.inr ⟨(Table.get?_eq_some.mp hget).1, fun heq => hkey heq.symm⟩
  refine ⟨hs.books.stored hstored, ?_, ?_, hs.own.requestIds_stored hnext.draft, ?_⟩
  · intro task htask
    rcases hrows task htask with rfl | ⟨hold, _⟩
    · exact hnext.org
    · exact hs.orgs task hold
  · intro task htask draft hdraft
    rcases hrows task htask with rfl | ⟨hold, hkey⟩
    · exact DraftSound.stored hnext.draft hdraft
    · apply (hs.drafts task hold draft hdraft).other
      intro hid
      exact hkey (Prod.ext ((hs.orgs task hold).trans hnext.org.symm) hid)
  · intro task htask hsent
    rcases hrows task htask with rfl | ⟨hold, _⟩
    · exact hnext.sent hsent
    · exact hs.own.sent task hold hsent

/-! ### Steps -/

/-- A call that leaves the tasks and what was handed over. -/
theorem TextsSound.later (hs : TextsSound options s) {s' : CustomerState} (hbooks : Books s')
    (hlater : Later s s') (htasks : s'.tasks = s.tasks) (hhanded : s'.handed = s.handed) :
    TextsSound options s' := by
  refine ⟨hbooks, ?_, ?_, ?_, ?_⟩
  · rw [htasks]
    exact hs.orgs
  · rw [htasks, hhanded]
    exact hs.drafts
  · rw [hhanded]
    exact hs.own.requestIds
  · rw [htasks]
    intro task htask hsent
    obtain ⟨draft, sent, hdraft, hrecord, intent, hmem, hsame⟩ := hs.own.sent task htask hsent
    exact ⟨draft, sent, hdraft, hrecord, intent, hlater.accepted intent hmem, hsame⟩

theorem textsSound_step (c : CustomerCall) (w : CustomerEnv) (hs : TextsSound options s)
    (hh : AllStand stands h s) (hc : allowedCall options False h c)
    (hcond : OwnRequestIds c w s) : TextsSound options (c.exec options w s).2 := by
  have hkept := stepKept hs.books hh c hc w
  cases c with
  | getCustomerServiceTask taskId => exact hs
  | outside question => exact hs
  | reply call =>
    have hsame : (s.sent call w.reply).tasks = s.tasks ∧
        (s.sent call w.reply).handed = s.handed := by
      unfold CustomerState.sent
      split
      · exact ⟨rfl, rfl⟩
      · split
        · split
          · exact ⟨rfl, rfl⟩
          · exact ⟨rfl, rfl⟩
        · exact ⟨rfl, rfl⟩
      · exact ⟨rfl, rfl⟩
    exact hs.later hkept.books hkept.later hsame.1 hsame.2
  | queryBusiness query =>
    have hsame : (s.answer query w.business).2.tasks = s.tasks ∧
        (s.answer query w.business).2.handed = s.handed := by
      cases w.business with
      | error thrown => exact ⟨rfl, rfl⟩
      | ok evidence => exact ⟨rfl, rfl⟩
    exact hs.later hkept.books hkept.later hsame.1 hsame.2
  | putCustomerServiceTask next expected asked =>
    change TextsSound options (s.put options.dateParse next expected asked).2
    cases hput : putCustomerServiceTask options.dateParse s.tasks next expected with
    | error thrown =>
      rw [put_error hput]
      exact hs
    | ok result =>
      obtain ⟨task, tasks⟩ := result
      obtain ⟨rfl, hstored⟩ := putCustomerServiceTask_ok hput
      rw [put_ok hput]
      exact hs.put hstored (hs.nextSound hh hc hstored hcond)

theorem textsSound_keeps :
    Pool.Keeps (historyProtocol (allowedCall options False)) startHistory
      (CustomerCall.exec options) (fun _ _ => (none : Option (CustomerProg Unit))) OwnRequestIds
      fun modes s => TextsSound options s ∧ ∀ i, AllStand stands (modes i) s := by
  apply Pool.Keeps.of_standing
  · intro h s c w hs hh hc hcond
    have hkept := stepKept hs.books hh c hc w
    exact ⟨textsSound_step c w hs hh hc hcond, hkept.told, hkept.later.stands⟩
  · intro h c r p _ hfork
    cases hfork

end Invariant

/-- However the requests interleave and however the deliveries end, no two texts go out under one
request id, and a task that is sent has a draft whose text the channel accepted under the id that
is recorded, as long as no new draft takes the request id of another text that was handed over
before, and every record of a sending comes from the sending of the draft that is stored. -/
theorem replies_ownText (options : CustomerOptions) (requests : List Request)
    (events : List (Nat × CustomerEnv))
    (hrecords : ∀ request ∈ requests, ∀ taskId input, request ≠ .recordSent taskId input)
    (hmeets : Along (CustomerPool.step options) (Pool.Meets OwnRequestIds)
      (.start options requests) events) :
    SentWithOwnText (run (CustomerPool.step options) (.start options requests) events).state := by
  have hstart : TextsSound options (CustomerPool.start options requests).state := by
    refine ⟨books_empty, ?_, ?_, ?_, ?_⟩
    · exact fun _ hmem => absurd hmem List.not_mem_nil
    · exact fun _ hmem => absurd hmem List.not_mem_nil
    · exact fun _ hmem => absurd hmem List.not_mem_nil
    · exact fun _ hmem => absurd hmem List.not_mem_nil
  obtain ⟨_, _, hsound, _⟩ := textsSound_keeps.run (Pool.freeEnds_true _)
    (start_follow requests hrecords)
    ⟨hstart, fun _ _ hmem => absurd hmem List.not_mem_nil⟩ events hmeets
  exact hsound.own

end Regenic.Customer
