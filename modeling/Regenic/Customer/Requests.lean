import Regenic.Customer.Discipline

/-!
Every request keeps to the discipline, whatever it is answered: one lemma for each operation.
-/

namespace Regenic.Customer

open Lib Reply

attribute [local irreducible] validBusinessEvidence

variable {options : CustomerOptions} {direct : Prop} {h : CustomerHistory} {α β : Type}
  {post : CustomerHistory → α → Prop}

/-! ## Checks and questions -/

theorem obeys_check {x : Except CustomerThrown β} {f : β → CustomerProg α}
    (hf : ∀ b, x = .ok b → Obeys (allowedCall options direct) h (f b) post) :
    Obeys (allowedCall options direct) h (liftThrown x >>= f) post := by
  cases x with
  | error thrown => exact Obeys.fail thrown
  | ok b => exact hf b rfl

theorem obeys_lift {x : Except CustomerThrown α} (hx : ∀ a, x = .ok a → post h a) :
    Obeys (allowedCall options direct) h (liftThrown x) post := by
  cases x with
  | error thrown => exact Obeys.fail thrown
  | ok a => exact Obeys.done (hx a rfl)

theorem obeys_ask {question : Outside} {f : question.Answer → CustomerProg α}
    (hf : ∀ h' answer, h <:+ h' → Obeys (allowedCall options direct) h' (f answer) post) :
    Obeys (allowedCall options direct) h (ask question >>= f) post := by
  apply Obeys.call trivial
  intro r
  cases r with
  | error thrown => exact Obeys.fail thrown
  | ok answer => exact hf _ answer (List.suffix_cons _ h)

/-- A part of an operation that only asks the outside. -/
def asks : CustomerCall → Prop
  | .outside _ => True
  | _ => False

theorem obeys_asking {p : CustomerProg β} (hp : p.Calls asks) {f : β → CustomerProg α}
    (hf : ∀ h' b, h <:+ h' → Obeys (allowedCall options direct) h' (f b) post) :
    Obeys (allowedCall options direct) h (p >>= f) post := by
  have hasking : Obeys (allowedCall options direct) h p fun _ _ => True := by
    apply Obeys.of_calls hp
    intro h' c _ hc
    cases c with
    | outside question => trivial
    | _ => cases hc
  exact hasking.bind fun h' b hsuffix _ => hf h' b hsuffix

theorem ask_asks (question : Outside) : (ask question).Calls asks := by
  constructor
  · trivial
  · intro r
    cases r with
    | error thrown => trivial
    | ok answer => trivial

theorem lift_asks (x : Except CustomerThrown β) : (liftThrown x).Calls asks := by
  cases x with
  | error thrown => trivial
  | ok b => trivial

/-! ## Tasks -/

theorem getTask_obeys (taskId : String) :
    Obeys (allowedCall options direct) h (getTask taskId) ReadTask := by
  apply obeys_check
  intro taskId' _
  apply Obeys.call trivial
  intro r
  cases r with
  | error thrown => exact Obeys.fail thrown
  | ok found =>
    cases found with
    | none => exact Obeys.fail _
    | some task => exact Obeys.done ⟨taskId', List.mem_cons_self⟩

/-- What the put of a changed task is answered with. -/
def SavedAs (task : CustomerServiceTask) (made : CustomerServiceTask → Prop)
    (h : CustomerHistory) (saved : CustomerServiceTask) : Prop :=
  ∃ changed updatedAt, made changed ∧
    PutTask h { changed with revision := task.revision + 1, updatedAt } saved

theorem update_obeys {task : CustomerServiceTask} {apply : CustomerProg CustomerServiceTask}
    {asked : Asked} {made : CustomerServiceTask → Prop} (htask : KnownTask h task)
    (happly : Obeys (allowedCall options direct) h apply fun h' changed =>
      Change options direct h' task changed asked ∧ made changed) :
    Obeys (allowedCall options direct) h (update task apply asked) (SavedAs task made) := by
  unfold update
  apply Obeys.bind happly
  intro h₁ changed hsuffix hchange
  apply obeys_ask
  intro h₂ updatedAt hsuffix'
  have hknown := htask.mono (hsuffix.trans hsuffix')
  have hchange' := hchange.1.mono hsuffix'
  apply Obeys.call (PutAllowed.changed task changed updatedAt asked hknown hchange' rfl)
  intro r
  cases r with
  | error thrown => exact Obeys.fail thrown
  | ok saved =>
    exact Obeys.done ⟨changed, updatedAt, hchange.2, _, _, List.mem_cons_self⟩

/-- A change that is made of what has been read alone. -/
theorem update_pure_obeys {task changed : CustomerServiceTask} {asked : Asked}
    (htask : KnownTask h task) (hchange : Change options direct h task changed asked) :
    Obeys (allowedCall options direct) h (update task (pure changed) asked)
      (SavedAs task (· = changed)) :=
  update_obeys htask (Obeys.done ⟨hchange, rfl⟩)

/-- An update that nothing is asked about afterwards. -/
theorem update_ends {task : CustomerServiceTask} {apply : CustomerProg CustomerServiceTask}
    {asked : Asked} (htask : KnownTask h task)
    (happly : Obeys (allowedCall options direct) h apply fun h' changed =>
      Change options direct h' task changed asked) :
    Obeys (allowedCall options direct) h (update task apply asked) fun _ _ => True := by
  have hmade : Obeys (allowedCall options direct) h apply fun h' changed =>
      Change options direct h' task changed asked ∧ (fun _ => True) changed :=
    happly.mono fun _ _ _ hchange => ⟨hchange, trivial⟩
  exact (update_obeys htask hmade).mono fun _ _ _ _ => trivial

/-! ## Context -/

theorem requireCurrent_asks (event : SourceEvent) : (requireCurrent event).Calls asks :=
  Prog.calls_bind (ask_asks _) fun _ => lift_asks _

theorem triggeringEvent_asks (eventId contentHash : String) :
    (triggeringEvent eventId contentHash).Calls asks := by
  apply Prog.calls_bind (ask_asks _)
  intro event
  split
  · trivial
  · split
    · trivial
    · trivial

theorem eventText_asks (contentHash : String) : (eventText contentHash).Calls asks := by
  apply Prog.calls_bind (ask_asks _)
  intro metadata
  cases metadata with
  | none => trivial
  | some mediaType =>
    apply Prog.calls_bind (ask_asks _)
    intro body
    apply Prog.calls_bind (lift_asks _)
    intro _
    split
    · trivial
    · trivial

theorem createTask_obeys (input : CreateTaskInput) :
    Obeys (allowedCall options direct) h (createTask options input) fun _ _ => True := by
  apply obeys_check
  intro eventId _
  apply obeys_check
  intro contentHash _
  apply obeys_asking (triggeringEvent_asks _ _)
  rintro h₁ ⟨event, threadId⟩ _
  apply obeys_asking (requireCurrent_asks _)
  intro h₂ _ _
  apply obeys_asking (eventText_asks _)
  intro h₃ text _
  apply obeys_check
  intro question _
  apply obeys_check
  intro _ _
  apply obeys_ask
  intro h₄ createdAt _
  apply obeys_ask
  intro h₅ id _
  apply obeys_check
  intro queryAt _
  apply Obeys.call (PutAllowed.opened rfl rfl rfl rfl)
  intro r
  exact obeys_lift fun _ _ => trivial

theorem groupSeeds_asks (task : CustomerServiceTask) (eventIds : List String) :
    ∀ groups, (groupSeeds task groups eventIds).Calls asks := by
  induction eventIds with
  | nil =>
    intro groups
    trivial
  | cons eventId rest ih =>
    intro groups
    have hthread : (seedThread task eventId).Calls asks :=
      Prog.calls_ite (fun _ => trivial) fun _ =>
        Prog.calls_bind (ask_asks _) fun _ => trivial
    apply Prog.calls_bind hthread
    intro threadId
    cases threadId with
    | none => exact ih groups
    | some threadId => exact ih _

theorem expandThreads_asks (task : CustomerServiceTask) (groups : List (String × List String))
    (snapshotId : String) (neighbors : Int) (threadIds : List String) :
    ∀ remaining expanded,
      (expandThreads task groups snapshotId neighbors threadIds remaining expanded).Calls asks := by
  induction threadIds with
  | nil =>
    intro remaining expanded
    trivial
  | cons threadId rest ih =>
    intro remaining expanded
    apply Prog.calls_ite
    · intro _
      trivial
    · intro _
      exact Prog.calls_bind (ask_asks _) fun _ => ih _ _

theorem searchContext_obeys (taskId : String) (input : SearchContextInput) :
    Obeys (allowedCall options direct) h (searchContext options taskId input)
      fun _ _ => True := by
  unfold searchContext
  apply Obeys.bind (getTask_obeys taskId)
  intro h₁ task _ hread
  apply obeys_check
  intro _ _
  apply obeys_check
  intro query _
  apply obeys_check
  intro maxItems _
  apply obeys_check
  intro neighbors _
  apply obeys_check
  intro query' _
  apply obeys_ask
  intro h₂ id hsuffix₂
  apply obeys_check
  intro objective _
  apply obeys_ask
  intro h₃ assembled hsuffix₃
  apply obeys_asking (groupSeeds_asks _ _ _)
  intro h₄ groups hsuffix₄
  apply obeys_asking (expandThreads_asks _ _ _ _ _ _ _)
  intro h₅ expanded hsuffix₅
  have hknown : KnownTask h₅ task := Or.inl
    (hread.mono (((hsuffix₂.trans hsuffix₃).trans hsuffix₄).trans hsuffix₅))
  apply Obeys.bind
  · apply update_ends hknown
    apply obeys_ask
    intro h₆ mergedAt _
    exact Obeys.done (Change.search _ _ _)
  · intro h₆ saved _ _
    exact Obeys.done trivial

theorem requireMutable_ok {task : CustomerServiceTask} (hok : requireMutable task = .ok ()) :
    task.status ≠ .sent := by
  have hmutable := refuseIf_ok hok
  intro hsent
  rw [hsent] at hmutable
  cases hmutable

theorem liveContinuation_asks (task : CustomerServiceTask) (handle : String) :
    (liveContinuation options task handle).Calls asks := by
  unfold liveContinuation
  cases task.continuations.find? fun item => item.handle = handle with
  | none => trivial
  | some continuation =>
    apply Prog.calls_bind (ask_asks _)
    intro readAt
    exact Prog.calls_bind (lift_asks _) fun _ => trivial

theorem continuedThread_asks (continuation : CustomerContextContinuation) :
    (continuedThread continuation).Calls asks := by
  apply Prog.calls_bind (ask_asks _)
  intro thread
  apply Prog.calls_bind (lift_asks _)
  intro _
  split
  · trivial
  · trivial

theorem nextContinuation_asks (current : CustomerContextContinuation) (thread : ContextThread)
    (indexes : List Nat) (readAt : String) :
    (nextContinuation options current thread indexes readAt).Calls asks := by
  unfold nextContinuation
  cases indexes.getLast? with
  | none => trivial
  | some boundaryIndex =>
    dsimp only
    cases thread.events[boundaryIndex]? with
    | none => trivial
    | some boundary =>
      apply Prog.calls_ite
      · intro _
        trivial
      · intro _
        apply Prog.calls_bind (ask_asks _)
        intro handle
        exact Prog.calls_bind (lift_asks _) fun _ => trivial

theorem readContext_obeys (taskId : String) (input : ReadContextInput) :
    Obeys (allowedCall options direct) h (readContext options taskId input)
      fun _ _ => True := by
  unfold readContext
  apply Obeys.bind (getTask_obeys taskId)
  intro h₁ task _ hread
  apply obeys_check
  intro _ hmutable
  apply obeys_check
  intro handle _
  apply obeys_asking (liveContinuation_asks _ _)
  intro h₂ continuation hsuffix₂
  apply obeys_check
  intro maxItems _
  apply obeys_asking (continuedThread_asks _)
  rintro h₃ ⟨thread, boundary⟩ hsuffix₃
  apply obeys_ask
  intro h₄ evidence hsuffix₄
  apply obeys_ask
  intro h₅ readAt hsuffix₅
  apply obeys_asking (nextContinuation_asks _ _ _ _)
  intro h₆ next hsuffix₆
  have hknown : KnownTask h₆ task := Or.inl
    (hread.mono ((((hsuffix₂.trans hsuffix₃).trans hsuffix₄).trans hsuffix₅).trans hsuffix₆))
  apply Obeys.bind
  · apply update_ends hknown
    apply obeys_ask
    intro h₇ mergedAt _
    exact Obeys.done (Change.read _ _ (requireMutable_ok hmutable))
  · intro h₇ saved _ _
    exact Obeys.done trivial

/-! ## Brief, pages and drafts -/

theorem withBrief_ok {task changed : CustomerServiceTask} {input : UpdateBriefInput}
    (hok : withBrief options task input = .ok changed) :
    ∃ status brief, (status = .readyForQuery ∨ status = .needsClarification) ∧
      changed = { task with status, brief, businessEvidence := [], draft := none } := by
  unfold withBrief at hok
  obtain ⟨_, _, hok⟩ := bind_ok hok
  obtain ⟨requestedFields, _, hok⟩ := bind_ok hok
  obtain ⟨members, _, hok⟩ := bind_ok hok
  obtain ⟨_, _, hok⟩ := bind_ok hok
  obtain ⟨_, _, hok⟩ := bind_ok hok
  obtain ⟨brief, _, hok⟩ := bind_ok hok
  cases hok
  refine ⟨_, _, ?_, rfl⟩
  split
  · exact Or.inl rfl
  · exact Or.inr rfl

theorem updateBrief_obeys (taskId : String) (input : UpdateBriefInput) :
    Obeys (allowedCall options direct) h (updateBrief options taskId input)
      fun _ _ => True := by
  unfold updateBrief
  apply Obeys.bind (getTask_obeys taskId)
  intro h₁ task _ hread
  apply obeys_check
  intro _ _
  apply update_ends (Or.inl hread)
  apply obeys_lift
  intro changed hok
  obtain ⟨status, brief, hstatus, rfl⟩ := withBrief_ok hok
  exact Change.brief status brief hstatus

theorem queryGateway_obeys (query : CustomerBusinessQuery)
    (wrap : CustomerThrown → CustomerThrown) :
    Obeys (allowedCall options direct) h (queryGateway options query wrap)
      fun h' evidence => AnsweredBy h' ⟨query, evidence⟩ := by
  apply Obeys.call trivial
  intro r
  cases r with
  | error thrown => exact Obeys.fail _
  | ok evidence =>
    dsimp only [Prog.bind]
    cases hvalid : validateBusinessEvidence options.dateParse evidence with
    | error message => exact Obeys.fail _
    | ok valid =>
      obtain ⟨rfl, _⟩ := validateBusinessEvidence_ok hvalid
      exact Obeys.done List.mem_cons_self

theorem ensureQuerying_obeys {task : CustomerServiceTask} (hread : ReadTask h task) :
    Obeys (allowedCall options direct) h (ensureQuerying task) fun h' querying =>
      KnownTask h' querying ∧ (querying = task ∨ ∃ updatedAt,
        PutTask h' { task with
          status := .querying, revision := task.revision + 1, updatedAt } querying) := by
  apply Obeys.ite
  · intro _
    exact Obeys.done ⟨Or.inl hread, Or.inl rfl⟩
  · intro _
    apply (update_pure_obeys (Or.inl hread) Change.querying).mono
    rintro h' saved _ ⟨changed, updatedAt, rfl, hput⟩
    exact ⟨Or.inr ⟨_, hput⟩, Or.inr ⟨updatedAt, hput⟩⟩

theorem queryBusiness_obeys (taskId : String) (page : Option String) :
    Obeys (allowedCall options direct) h (queryBusiness options taskId page)
      fun _ _ => True := by
  unfold queryBusiness
  apply Obeys.bind (getTask_obeys taskId)
  intro h₁ task _ hread
  apply obeys_check
  intro _ _
  apply obeys_check
  intro _ hcheck
  apply obeys_check
  intro query hquery
  apply Obeys.bind (ensureQuerying_obeys hread)
  rintro h₂ querying _ ⟨hknown, hbefore⟩
  apply Obeys.bind (queryGateway_obeys _ _)
  intro h₃ result hsuffix₃ hanswer
  apply obeys_check
  intro _ hvalid
  apply obeys_check
  intro _ _
  have hbefore' : querying = task ∨ ∃ updatedAt,
      PutTask h₃ { task with
        status := .querying, revision := task.revision + 1, updatedAt } querying := by
    rcases hbefore with rfl | ⟨updatedAt, hput⟩
    · exact Or.inl rfl
    · exact Or.inr ⟨updatedAt, hput.mono hsuffix₃⟩
  apply update_ends (hknown.mono hsuffix₃)
  exact Obeys.done (Change.page task page query result hbefore' hcheck hquery hanswer hvalid)

theorem createDraft_obeys (taskId : String) (input : CreateDraftInput) :
    Obeys (allowedCall options direct) h (createDraft taskId input) fun _ _ => True := by
  unfold createDraft
  apply Obeys.bind (getTask_obeys taskId)
  intro h₁ task _ hread
  apply obeys_check
  intro _ hverifying
  have hstatus : task.status = .verifying := by simpa using refuseIf_ok hverifying
  apply obeys_check
  intro claims hclaims
  apply update_ends (Or.inl hread)
  apply obeys_check
  intro text htext
  apply obeys_ask
  intro h₂ createdAt _
  have htrim : jsTrim text = text := by rw [required_ok htext, jsTrim_jsTrim]
  exact Obeys.done (Change.draft input text createdAt claims hstatus hclaims htrim)

theorem reviewDraft_obeys (taskId : String) (input : ReviewDraftInput) :
    Obeys (allowedCall options direct) h (reviewDraft taskId input) fun _ _ => True := by
  unfold reviewDraft
  apply Obeys.bind (getTask_obeys taskId)
  intro h₁ task _ hread
  cases hdraft : task.draft with
  | none => exact Obeys.fail _
  | some draft =>
    apply obeys_check
    intro _ hawaiting
    have hstatus : task.status = .awaitingReview := by simpa using refuseIf_ok hawaiting
    apply obeys_check
    intro _ _
    apply obeys_check
    intro _ hreviewer
    have hhuman := refuseIf_ok hreviewer
    rw [Bool.or_eq_false_iff] at hhuman
    have hactor : input.reviewer.actorType = .human := by simpa using hhuman.1
    apply obeys_ask
    intro h₂ reviewedAt hsuffix
    apply update_ends (Or.inl (hread.mono hsuffix))
    exact Obeys.done (Change.review draft input reviewedAt hdraft hstatus hactor)

/-! ## Sending -/

theorem businessQuery_page {task : CustomerServiceTask} {page : Option String}
    {query : CustomerBusinessQuery} (hquery : businessQuery task page = .ok query) :
    query.page = (present page).map jsTrim := by
  unfold businessQuery at hquery
  cases hbrief : briefQuery task with
  | none =>
    rw [hbrief] at hquery
    cases hquery
  | some base =>
    rw [hbrief] at hquery
    obtain ⟨asked, hasked, hmade⟩ := bind_ok hquery
    cases hmade
    cases hpage : present page with
    | none =>
      rw [hpage] at hasked
      cases hasked
      rfl
    | some token =>
      rw [hpage, optionally] at hasked
      cases hrequired : required token "page" with
      | error thrown =>
        rw [hrequired] at hasked
        cases hasked
      | ok text =>
        rw [hrequired] at hasked
        cases hasked
        exact congrArg some (required_ok hrequired)

/-- The pages that were asked for so far, and the one that comes next. -/
structure AnsweredRound (options : CustomerOptions) (task : CustomerServiceTask)
    (h : CustomerHistory) (fresh : List GatewayAnswer) : Prop where
  answers : ∀ answer ∈ fresh, AnsweredBy h answer ∧
    validateGatewayEvidence options task answer.query answer.evidence = .ok ()
  linked : LinkedFrom none fresh

theorem AnsweredRound.append {task : CustomerServiceTask} {fresh : List GatewayAnswer}
    {answer : GatewayAnswer} {h' : CustomerHistory}
    (hround : AnsweredRound options task h fresh) (hsuffix : h <:+ h')
    (hanswer : AnsweredBy h' answer)
    (hvalid : validateGatewayEvidence options task answer.query answer.evidence = .ok ())
    (hpage : answer.query.page = pageAfter none fresh) :
    AnsweredRound options task h' (fresh ++ [answer]) := by
  constructor
  · intro other hother
    rcases List.mem_append.mp hother with hold | hnew
    · exact ⟨hsuffix.subset (hround.answers other hold).1, (hround.answers other hold).2⟩
    · rw [List.mem_singleton.mp hnew]
      exact ⟨hanswer, hvalid⟩
  · exact (linkedFrom_append none fresh answer).mpr ⟨hround.linked, hpage⟩

theorem freshPages_obeys {task : CustomerServiceTask} (turns : Nat) :
    ∀ (h : CustomerHistory) (seenPages : List String) (page : Option String)
      (fresh : List GatewayAnswer), AnsweredRound options task h fresh →
      (present page).map jsTrim = pageAfter none fresh → (fresh ≠ [] ∨ turns ≠ 0) →
      Obeys (allowedCall options direct) h (freshPages options task turns seenPages page fresh)
        fun h' all => AnsweredRound options task h' all ∧ all ≠ [] := by
  induction turns with
  | zero =>
    intro h seenPages page fresh hround _ hne
    exact Obeys.done ⟨hround, hne.resolve_right fun hzero => hzero rfl⟩
  | succ turns ih =>
    intro h seenPages page fresh hround hpage _
    apply obeys_check
    intro query hquery
    apply Obeys.bind (queryGateway_obeys _ _)
    intro h₁ evidence hsuffix hanswer
    apply obeys_check
    intro _ hvalid
    have hasked : query.page = pageAfter none fresh := (businessQuery_page hquery).trans hpage
    have hnext : AnsweredRound options task h₁ (fresh ++ [⟨query, evidence⟩]) :=
      hround.append hsuffix hanswer hvalid hasked
    have hnonempty : fresh ++ [⟨query, evidence⟩] ≠ [] := by simp
    cases hmore : present evidence.nextPage with
    | none =>
      apply Obeys.ite
      · intro _
        exact Obeys.done ⟨hnext, hnonempty⟩
      · intro _
        exact Obeys.fail _
    | some next =>
      apply Obeys.ite
      · intro _
        exact Obeys.fail _
      · intro _
        apply ih _ _ _ _ hnext _ (Or.inl hnonempty)
        have hkeep : present (some next) = some next := by
          rw [← hmore, present_present]
        rw [pageAfter_append, hkeep]
        simp [BusinessEvidence.continuation, hmore]

/-- A task that is being sent was put as such. -/
def BeingSent (h : CustomerHistory) (task : CustomerServiceTask) : Prop :=
  ∃ next, PutTask h next task ∧ next.status = .sending

theorem requireFresh_obeys {task : CustomerServiceTask} {draft : CustomerReplyDraft}
    {fresh : List GatewayAnswer} (hknown : KnownTask h task) (hdraft : task.draft = some draft)
    (hstatus : task.status = .approved) (hround : AnsweredRound options task h fresh)
    (hne : fresh ≠ []) :
    Obeys (allowedCall options direct) h (requireFresh task draft fresh) BeingSent := by
  apply Obeys.ite
  · intro _
    apply Obeys.bind (update_pure_obeys hknown
      (Change.recheck draft fresh hdraft hstatus hround.answers hround.linked hne))
    intro h₁ saved _ _
    exact Obeys.fail _
  · intro _
    apply (update_pure_obeys hknown (Change.sending hstatus)).mono
    rintro h₁ saved _ ⟨changed, updatedAt, rfl, hput⟩
    exact ⟨_, hput, rfl⟩

theorem prepareSend_obeys (taskId : String) :
    Obeys (allowedCall options direct) h (prepareSend options taskId) BeingSent := by
  unfold prepareSend
  apply Obeys.bind (getTask_obeys taskId)
  intro h₁ task _ hread
  cases hfound : task.draft.filter fun draft => task.status = .approved && draft.isApproved with
  | none => exact Obeys.fail _
  | some draft =>
    obtain ⟨hdraft, happroved⟩ := Option.filter_eq_some_iff.mp hfound
    rw [Bool.and_eq_true, decide_eq_true_eq] at happroved
    apply obeys_check
    intro _ _
    have hstart : AnsweredRound options task h₁ [] := ⟨nofun, trivial⟩
    apply Obeys.bind (freshPages_obeys _ _ _ _ _ hstart rfl (Or.inr (by decide)))
    rintro h₂ fresh hsuffix ⟨hround, hne⟩
    exact requireFresh_obeys (Or.inl (hread.mono hsuffix)) hdraft happroved.1 hround hne

theorem releaseSend_obeys (taskId : String) :
    Obeys (allowedCall options direct) h (releaseSend taskId) fun _ _ => True := by
  unfold releaseSend
  apply Obeys.bind (getTask_obeys taskId)
  intro h₁ task _ hread
  apply Obeys.ite
  · intro _
    exact Obeys.done trivial
  · intro hsending
    apply update_ends (Or.inl hread)
    exact Obeys.done (Change.release (not_not.mp hsending))

theorem sentTime_asks (sentAt : Option String) : (sentTime options sentAt).Calls asks := by
  unfold sentTime
  cases sentAt with
  | none => exact ask_asks _
  | some value => exact lift_asks _

theorem recordSent_obeys (taskId : String) (input : RecordSentInput)
    (hrecord : direct ∨ DeliveredAs h (jsTrim input.clientRequestId)) :
    Obeys (allowedCall options direct) h (recordSent options taskId input)
      fun _ _ => True := by
  unfold recordSent
  apply Obeys.bind (getTask_obeys taskId)
  intro h₁ task hsuffix₁ hread
  apply Obeys.ite
  · intro _
    exact Obeys.done trivial
  · intro _
    cases hfound : task.draft.filter fun draft =>
        task.status = .sending && draft.isApproved with
    | none => exact Obeys.fail _
    | some draft =>
      obtain ⟨hdraft, happroved⟩ := Option.filter_eq_some_iff.mp hfound
      rw [Bool.and_eq_true, decide_eq_true_eq] at happroved
      apply update_ends (Or.inl hread)
      apply obeys_check
      intro id hid
      apply obeys_check
      intro eventId _
      apply obeys_asking (sentTime_asks _)
      intro h₂ sentAt hsuffix₂
      have hdelivered : direct ∨ DeliveredAs h₂ id := by
        rw [required_ok hid]
        exact hrecord.imp_right fun hd => hd.mono (hsuffix₁.trans hsuffix₂)
      exact Obeys.done
        (Change.sent draft id eventId sentAt hdraft happroved.1 hdelivered)

/-- A program of the reply service that keeps to its calls, run for a draft that is being
sent. -/
theorem liftReply_obeys {id text : String} {p : ReplyProg α} {hr : ReplyHistory}
    {postReply : ReplyHistory → α → Prop} (hp : Obeys (mayCall id text) hr p postReply)
    (hover : HandedOver h id text hr) :
    Obeys (allowedCall options direct) h (liftReply p) fun h' a =>
      ∃ hr', HandedOver h' id text hr' ∧ postReply hr' a := by
  have hplain : Follows (historyProtocol (mayCall id text))
      (fun h' r => ∀ a, r = .ok a → postReply h' a) hr p := Follows.mono hp fun _ _ hend => hend.2
  clear hp
  induction hplain generalizing h with
  | done hpost => exact Obeys.done ⟨_, hover, hpost _ rfl⟩
  | fail _ => exact Obeys.fail _
  | call hc hnext ih =>
    apply Obeys.call ⟨id, text, _, hover, hc⟩
    intro r
    apply ih r trivial
    have hlonger := hover.mono (List.suffix_cons (⟨.reply _, r⟩ : Told CustomerCall.Answer) h)
    refine ⟨hlonger.draft, ?_⟩
    intro told htold
    rcases List.mem_cons.mp htold with rfl | hold
    · exact List.mem_cons_self
    · exact hlonger.told told hold

theorem replyInput_id (task : CustomerServiceTask) (draft : CustomerReplyDraft) :
    present ((replyInput task draft).clientRequestId.map jsTrim) =
      some (clientRequestId task draft) := by
  unfold replyInput
  rw [Option.map_some, jsTrim_clientRequestId, present_clientRequestId]

theorem replySend_obeys (task : CustomerServiceTask) (draft : CustomerReplyDraft) :
    Obeys (mayCall (clientRequestId task draft) (jsTrim draft.text)) []
      (Reply.send options.orgId (replyInput task draft))
      fun hr _ => Delivered (clientRequestId task draft) hr := by
  have hsend := @Reply.send_obeys _ options.orgId [] _ (replyInput_id task draft)
  exact hsend

theorem deliver_obeys {task : CustomerServiceTask} {draft : CustomerReplyDraft}
    (hsending : BeingSent h task) (hdraft : task.draft = some draft) :
    Obeys (allowedCall options direct) h (deliver options task draft) fun h' _ =>
      DeliveredAs h' (clientRequestId task draft) := by
  obtain ⟨next, hput, hnext⟩ := hsending
  have hover : HandedOver h (clientRequestId task draft) (jsTrim draft.text) [] :=
    ⟨⟨next, task, draft, hput, hnext, hdraft, rfl, rfl⟩,
      fun _ hmem => absurd hmem List.not_mem_nil⟩
  have hreply : Obeys (mayCall (clientRequestId task draft) (jsTrim draft.text)) []
      (Reply.send options.orgId (replyInput task draft))
      fun hr _ => Delivered (clientRequestId task draft) hr := replySend_obeys task draft
  unfold deliver
  apply (liftReply_obeys hreply hover).tryCatch
  · rintro h' view _ ⟨hr, hover', hdelivered⟩
    exact ⟨_, hr, hover', hdelivered⟩
  · intro h' thrown _
    have hrelease : Obeys (allowedCall options direct) h'
        ((releaseSend task.id).tryCatch fun (_ : CustomerThrown) =>
          (pure task : CustomerProg CustomerServiceTask)) fun _ _ => True :=
      (releaseSend_obeys task.id).tryCatch (fun _ _ _ _ => trivial)
        fun _ _ _ => Obeys.done trivial
    exact hrelease.bind fun _ _ _ _ => Obeys.fail thrown

theorem send_obeys (taskId : String) :
    Obeys (allowedCall options direct) h (send options taskId) fun _ _ => True := by
  unfold send
  apply Obeys.bind (prepareSend_obeys taskId)
  intro h₁ task _ hsending
  cases hdraft : task.draft with
  | none => exact Obeys.fail _
  | some draft =>
    apply Obeys.bind (deliver_obeys hsending hdraft)
    intro h₂ view _ hdelivered
    apply obeys_ask
    intro h₃ eventId hsuffix
    have hrecord : direct ∨ DeliveredAs h₃ (jsTrim (clientRequestId task draft)) := by
      rw [jsTrim_clientRequestId]
      exact Or.inr (hdelivered.mono hsuffix)
    exact recordSent_obeys task.id _ hrecord

theorem forget_obeys {p : CustomerProg α} (hp : Obeys (allowedCall options direct) h p post) :
    Obeys (allowedCall options direct) h (forget p) fun _ _ => True :=
  hp.bind fun _ _ _ _ => Obeys.done trivial

/-- Whoever asks, every request keeps to the discipline. -/
theorem prog_obeys (request : Request)
    (hdirect : ∀ taskId input, request = .recordSent taskId input → direct) :
    Obeys (allowedCall options direct) h (request.prog options) fun _ _ => True := by
  cases request with
  | createTask input => exact forget_obeys (createTask_obeys input)
  | searchContext taskId input => exact forget_obeys (searchContext_obeys taskId input)
  | readContext taskId input => exact forget_obeys (readContext_obeys taskId input)
  | updateBrief taskId input => exact forget_obeys (updateBrief_obeys taskId input)
  | queryBusiness taskId page => exact forget_obeys (queryBusiness_obeys taskId page)
  | createDraft taskId input => exact forget_obeys (createDraft_obeys taskId input)
  | reviewDraft taskId input => exact forget_obeys (reviewDraft_obeys taskId input)
  | prepareSend taskId => exact forget_obeys (prepareSend_obeys taskId)
  | releaseSend taskId => exact forget_obeys (releaseSend_obeys taskId)
  | recordSent taskId input =>
    exact forget_obeys (recordSent_obeys taskId input (Or.inl (hdirect taskId input rfl)))
  | send taskId => exact forget_obeys (send_obeys taskId)

end Regenic.Customer
