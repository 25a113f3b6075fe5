import Regenic.Customer.Books

/-!
A reply is sent as it was approved: a task that is approved, being sent or sent has a draft that
a human approved for the brief as it is, and the pages that the draft cites are the whole chain
of one query round. Pages that take each other's place by their query id break this, unless a
round replaces the pages of the one before it altogether.
-/

namespace Regenic.Customer

open Lib Reply

/-! ## What is approved -/

def TaskStatus.isApproved (status : TaskStatus) : Bool :=
  status = .approved || status = .sending || status = .sent

/-- The pages were asked for one after the other, the first without a page, up to one that
completes them. -/
structure CompleteRound (round : List GatewayAnswer) : Prop where
  linked : LinkedFrom none round
  whole : wholeChain (round.map (·.evidence)) = true

structure SentAsApproved (s : CustomerState) (task : CustomerServiceTask)
    (draft : CustomerReplyDraft) : Prop where
  reviewed : ∃ review, draft.review = some review ∧ review.result = .approved ∧
    review.reviewer.actorType = .human
  briefVersion : draft.briefVersion = task.brief.version
  cited : ∀ claim ∈ draft.claims, claim.evidence ≠ [] ∧
    ∀ citation ∈ claim.evidence, citation ∈ (listedPages task draft).map (·.citationId)
  listed : (listedPages task draft).map (·.queryId) = draft.businessQueryIds
  pages : listedPages task draft = (s.round task.key).map (·.evidence)
  complete : CompleteRound (s.round task.key)
  answered : ∀ answer ∈ s.round task.key, answer ∈ s.answered

/-- Every stored task that is approved, being sent or sent is so with such a draft. -/
structure RepliesApproved (s : CustomerState) : Prop where
  tasks : ∀ task ∈ s.tasks.rows, task.status.isApproved = true →
    ∃ draft, task.draft = some draft ∧ SentAsApproved s task draft

/-- The pages that come to a task with these stored: a continuation has a query id of its own,
and a revalidation replaces all of them or leaves the last one. -/
def KeepsRound (stored : List BusinessEvidence) : Asked → Prop
  | .continued answer => answer.evidence.queryId ∉ stored.map (·.queryId)
  | .again answers =>
    ((answers.map (·.evidence.queryId)).Nodup ∧
      ∀ page ∈ stored, page.queryId ∈ answers.map (·.evidence.queryId)) ∨
    ∀ page ∈ stored.getLast?, page.queryId ∉ answers.map (·.evidence.queryId)
  | _ => True

instance (stored : List BusinessEvidence) : (asked : Asked) → Decidable (KeepsRound stored asked)
  | .asBefore | .forgotten | .first _ => isTrue trivial
  | .continued _ => inferInstanceAs (Decidable (¬ _))
  | .again _ => inferInstanceAs (Decidable ((_ ∧ _) ∨ _))

/-- A put that is stored keeps the pages of one round. -/
def OneRound : CustomerCall → CustomerEnv → CustomerState → Prop
  | .putCustomerServiceTask next expected asked, _, s =>
    ∀ stored ∈ s.tasks.get? next.key, expected = some stored.revision →
      KeepsRound stored.businessEvidence asked
  | _, _, _ => True

instance (c : CustomerCall) (w : CustomerEnv) (s : CustomerState) : Decidable (OneRound c w s) :=
  match c with
  | .putCustomerServiceTask next expected _ =>
    inferInstanceAs (Decidable (∀ stored ∈ s.tasks.get? next.key,
      expected = some stored.revision → _))
  | .getCustomerServiceTask _ | .queryBusiness _ | .outside _ | .reply _ => isTrue trivial

/-! ## Merged pages -/

section Merging

variable {pages fresh : List BusinessEvidence}

theorem mem_mergeBusinessEvidence {page added : BusinessEvidence} :
    page ∈ mergeBusinessEvidence pages added ↔
      page ∈ pages ∧ page.queryId ≠ added.queryId ∨ page = added := by
  simp [mergeBusinessEvidence]

theorem mergeBusinessEvidence_new {added : BusinessEvidence}
    (hnew : added.queryId ∉ pages.map (·.queryId)) :
    mergeBusinessEvidence pages added = pages ++ [added] := by
  unfold mergeBusinessEvidence
  have hkeep : pages.filter (fun item => item.queryId ≠ added.queryId) = pages := by
    apply List.filter_eq_self.mpr
    intro page hpage
    have hne : page.queryId ≠ added.queryId := by
      intro heq
      exact hnew (heq ▸ List.mem_map_of_mem hpage)
    simpa using hne
  rw [hkeep]

theorem mem_foldl_merge {page : BusinessEvidence}
    (h : page ∈ fresh.foldl mergeBusinessEvidence pages) : page ∈ pages ∨ page ∈ fresh := by
  induction fresh generalizing pages with
  | nil => exact Or.inl h
  | cons added rest ih =>
    rcases ih h with hmerged | hrest
    · rcases mem_mergeBusinessEvidence.mp hmerged with ⟨hold, _⟩ | rfl
      · exact Or.inl hold
      · exact Or.inr List.mem_cons_self
    · exact Or.inr (List.mem_cons_of_mem _ hrest)

theorem foldl_merge_getLast? (hne : fresh ≠ []) :
    (fresh.foldl mergeBusinessEvidence pages).getLast? = fresh.getLast? := by
  obtain ⟨init, last, rfl⟩ := List.eq_nil_or_concat fresh |>.resolve_left hne
  simp [List.concat_eq_append, List.foldl_append, mergeBusinessEvidence]

/-- Pages with query ids of their own follow those that they do not replace. -/
theorem foldl_merge_nodup (hnodup : (fresh.map (·.queryId)).Nodup) :
    fresh.foldl mergeBusinessEvidence pages =
      pages.filter (fun item => item.queryId ∉ fresh.map (·.queryId)) ++ fresh := by
  induction fresh generalizing pages with
  | nil => simp
  | cons added rest ih =>
    rw [List.map_cons, List.nodup_cons] at hnodup
    rw [List.foldl_cons, ih hnodup.2, mergeBusinessEvidence, List.filter_append,
      List.filter_filter]
    have hkeep : [added].filter (fun item => item.queryId ∉ rest.map (·.queryId)) = [added] := by
      simpa using hnodup.1
    have hboth : pages.filter (fun item => decide (item.queryId ∉ rest.map (·.queryId)) &&
          decide (item.queryId ≠ added.queryId)) =
        pages.filter (fun item => item.queryId ∉ (added :: rest).map (·.queryId)) := by
      apply List.filter_congr
      intro item _
      rw [List.map_cons]
      by_cases hid : item.queryId = added.queryId <;> simp [hid]
    rw [hkeep, hboth, List.append_assoc, List.singleton_append]

theorem mem_foldl_merge_of_new {page : BusinessEvidence} (hpage : page ∈ pages)
    (hid : page.queryId ∉ fresh.map (·.queryId)) :
    page ∈ fresh.foldl mergeBusinessEvidence pages := by
  induction fresh generalizing pages with
  | nil => exact hpage
  | cons added rest ih =>
    rw [List.map_cons, List.mem_cons, not_or] at hid
    exact ih (mem_mergeBusinessEvidence.mpr (Or.inl ⟨hpage, hid.1⟩)) hid.2

/-- A page that is not replaced stands in front of the last one. -/
theorem mem_dropLast_foldl_merge {page : BusinessEvidence} (hne : fresh ≠ [])
    (hpage : page ∈ pages) (hid : page.queryId ∉ fresh.map (·.queryId)) :
    page ∈ (fresh.foldl mergeBusinessEvidence pages).dropLast := by
  obtain ⟨init, last, rfl⟩ := List.eq_nil_or_concat fresh |>.resolve_left hne
  rw [List.concat_eq_append] at hid ⊢
  rw [List.map_append, List.mem_append, not_or] at hid
  rw [List.foldl_append, List.foldl_cons, List.foldl_nil, mergeBusinessEvidence,
    List.dropLast_concat, List.mem_filter]
  have hlast : page.queryId ≠ last.queryId := by simpa using hid.2
  exact ⟨mem_foldl_merge_of_new hpage hid.1, by simpa using hlast⟩

end Merging

/-! ## The invariant -/

/-- The draft of a task in review, or after it, is made from these pages. -/
structure Drafted (version : Nat) (pages : List BusinessEvidence) (draft : CustomerReplyDraft) :
    Prop where
  briefVersion : draft.briefVersion = version
  cited : ∀ claim ∈ draft.claims, claim.evidence ≠ [] ∧
    ∀ citation ∈ claim.evidence, citation ∈ pages.map (·.citationId)
  listed : draft.businessQueryIds = pages.map (·.queryId)
  whole : wholeChain pages = true

def TaskStatus.inReview (status : TaskStatus) : Bool :=
  status = .awaitingReview || status.isApproved

def CustomerReplyDraft.Reviewed (draft : CustomerReplyDraft) : Prop :=
  ∃ review, draft.review = some review ∧ review.result = .approved ∧
    review.reviewer.actorType = .human

/-- What holds of a stored task and its query round: its pages are those of the round, unless a
page that completes them is not the last. -/
structure RoundSound (answered round : List GatewayAnswer) (status : TaskStatus) (version : Nat)
    (pages : List BusinessEvidence) (draft : Option CustomerReplyDraft) : Prop where
  versions : ∀ page ∈ pages, page.briefVersion = version
  linked : LinkedFrom none round
  answered : ∀ answer ∈ round, answer ∈ answered
  last : pages.getLast? = (round.map (·.evidence)).getLast?
  whole : pages = round.map (·.evidence) ∨ ∃ page ∈ pages.dropLast, page.complete = true
  drafted : status.inReview = true → ∃ d, draft = some d ∧ Drafted version pages d
  reviewed : status.isApproved = true → ∀ d, draft = some d → d.Reviewed

abbrev TaskSound (answered round : List GatewayAnswer) (task : CustomerServiceTask) : Prop :=
  RoundSound answered round task.status task.brief.version task.businessEvidence task.draft

section Facts

variable {answered round : List GatewayAnswer} {task : CustomerServiceTask}

theorem wholeChain_not_complete {pages : List BusinessEvidence} (h : wholeChain pages = true)
    {page : BusinessEvidence} (hpage : page ∈ pages.dropLast) : page.complete = false := by
  unfold wholeChain at h
  rw [Bool.and_eq_true, List.all_eq_true] at h
  have hopen := h.2 page hpage
  rw [Bool.and_eq_true] at hopen
  simpa using hopen.1

/-- The pages of a task in review are those of the round. -/
theorem RoundSound.pages_eq {status : TaskStatus} {version : Nat}
    {pages : List BusinessEvidence} {draft : Option CustomerReplyDraft}
    (h : RoundSound answered round status version pages draft)
    (hstatus : status.inReview = true) : pages = round.map (·.evidence) := by
  obtain ⟨d, _, hdrafted⟩ := h.drafted hstatus
  apply h.whole.resolve_right
  rintro ⟨page, hpage, hcomplete⟩
  rw [wholeChain_not_complete hdrafted.whole hpage] at hcomplete
  cases hcomplete

theorem currentPages_eq (h : TaskSound answered round task) :
    currentPages task = task.businessEvidence := by
  apply List.filter_eq_self.mpr
  intro page hpage
  simpa using h.versions page hpage

theorem pageAfter_getLast? {page : Option String} {answer : GatewayAnswer}
    (h : round.getLast? = some answer) : pageAfter page round = answer.evidence.continuation := by
  obtain ⟨init, rfl⟩ := List.getLast?_eq_some_iff.mp h
  exact pageAfter_append page init answer

theorem mem_of_mapM_ok {α β : Type} {check : α → Except CustomerThrown β} {items : List α}
    {results : List β} (h : items.mapM check = .ok results) {b : β} (hb : b ∈ results) :
    ∃ a ∈ items, check a = .ok b := by
  induction items generalizing results with
  | nil =>
    rw [List.mapM_nil] at h
    cases h
    cases hb
  | cons a rest ih =>
    rw [List.mapM_cons] at h
    obtain ⟨first, hfirst, h⟩ := bind_ok h
    obtain ⟨others, hothers, h⟩ := bind_ok h
    cases h
    rcases List.mem_cons.mp hb with rfl | hmem
    · exact ⟨a, List.mem_cons_self, hfirst⟩
    · obtain ⟨a', ha', hcheck⟩ := ih hothers hmem
      exact ⟨a', List.mem_cons_of_mem _ ha', hcheck⟩

theorem draftClaim_ok {pages : List BusinessEvidence} {covered : List String}
    {claim next : CustomerReplyClaim} (h : draftClaim pages covered claim = .ok next) :
    next.evidence ≠ [] ∧ ∀ citation ∈ next.evidence, citation ∈ pages.map (·.citationId) := by
  unfold draftClaim at h
  obtain ⟨claimId, _, h⟩ := bind_ok h
  obtain ⟨text, _, h⟩ := bind_ok h
  obtain ⟨_, hcited, h⟩ := bind_ok h
  obtain ⟨_, _, h⟩ := bind_ok h
  obtain ⟨_, _, h⟩ := bind_ok h
  cases h
  have hevidence := refuseIf_ok hcited
  rw [Bool.or_eq_false_iff, decide_eq_false_iff_not, List.any_eq_false] at hevidence
  refine ⟨hevidence.1, ?_⟩
  intro citation hmem
  simpa using hevidence.2 citation hmem

theorem draftClaims_ok {input : CreateDraftInput} {claims : List CustomerReplyClaim}
    (h : draftClaims task input = .ok claims) :
    wholeChain (currentPages task) = true ∧ ∀ claim ∈ claims, claim.evidence ≠ [] ∧
      ∀ citation ∈ claim.evidence, citation ∈ (currentPages task).map (·.citationId) := by
  unfold draftClaims at h
  obtain ⟨_, hwhole, h⟩ := bind_ok h
  obtain ⟨_, _, h⟩ := bind_ok h
  obtain ⟨made, hmade, h⟩ := bind_ok h
  obtain ⟨_, _, h⟩ := bind_ok h
  obtain ⟨_, _, h⟩ := bind_ok h
  cases h
  refine ⟨by simpa using refuseIf_ok hwhole, ?_⟩
  intro claim hclaim
  obtain ⟨given, _, hgiven⟩ := mem_of_mapM_ok hmade hclaim
  exact draftClaim_ok hgiven

theorem validateGatewayEvidence_version {options : CustomerOptions}
    {query : CustomerBusinessQuery} {evidence : BusinessEvidence}
    (h : validateGatewayEvidence options task query evidence = .ok ()) :
    evidence.briefVersion = task.brief.version := by
  unfold validateGatewayEvidence at h
  obtain ⟨_, hquery, _⟩ := bind_ok h
  have hsame := refuseIf_ok hquery
  simp only [Bool.or_eq_false_iff, decide_eq_false_iff_not, not_not] at hsame
  exact hsame.1.1.1.1.1.2

theorem checkPage_ok {page : Option String} {token : String}
    (h : checkPage task page = .ok ()) (hpage : present page = some token) :
    (currentPages task).getLast?.bind (·.nextPage) = page := by
  unfold checkPage at h
  obtain ⟨_, hnext, _⟩ := bind_ok h
  have hsame := refuseIf_ok hnext
  rw [hpage] at hsame
  simpa using hsame

end Facts

/-! ## Changes -/

section Changes

variable {options : CustomerOptions} {direct : Prop} {h : CustomerHistory} {s : CustomerState}
  {round : List GatewayAnswer} {task : CustomerServiceTask}

/-- A task that is no longer in review asks nothing of its draft. -/
theorem RoundSound.outOfReview {answered : List GatewayAnswer} {status status' : TaskStatus}
    {version : Nat} {pages : List BusinessEvidence} {draft draft' : Option CustomerReplyDraft}
    (hsound : RoundSound answered round status version pages draft)
    (hstatus : status'.inReview = false) :
    RoundSound answered round status' version pages draft' := by
  have happroved : status'.isApproved = false := by
    unfold TaskStatus.inReview at hstatus
    exact (Bool.or_eq_false_iff.mp hstatus).2
  refine ⟨hsound.versions, hsound.linked, hsound.answered, hsound.last, hsound.whole, ?_, ?_⟩
  · intro hin
    rw [hstatus] at hin
    cases hin
  · intro hin
    rw [happroved] at hin
    cases hin

theorem RoundSound.answeredMore {answered answered' : List GatewayAnswer} {status : TaskStatus}
    {version : Nat} {pages : List BusinessEvidence} {draft : Option CustomerReplyDraft}
    (hsound : RoundSound answered round status version pages draft)
    (hmore : ∀ answer ∈ answered, answer ∈ answered') :
    RoundSound answered' round status version pages draft :=
  ⟨hsound.versions, hsound.linked, fun answer hmem => hmore answer (hsound.answered answer hmem),
    hsound.last, hsound.whole, hsound.drafted, hsound.reviewed⟩

/-- The task that a page is asked for has the pages and the brief of the task that was read. -/
theorem askedTask_eq {before : CustomerServiceTask} (hh : AllStand stands h s)
    (hbefore : task = before ∨ ∃ updatedAt,
      PutTask h { before with
        status := .querying, revision := before.revision + 1, updatedAt } task) :
    currentPages before = currentPages task := by
  rcases hbefore with rfl | ⟨updatedAt, hput⟩
  · rfl
  · rw [(hput.stands hh).1]
    rfl

theorem TaskSound.firstPage {query : CustomerBusinessQuery} {result : BusinessEvidence}
    {page : Option String} (hsound : TaskSound s.answered round task)
    (hpage : present page = none) (hquery : query.page = (present page).map jsTrim)
    (hanswer : ⟨query, result⟩ ∈ s.answered)
    (hversion : result.briefVersion = task.brief.version) :
    TaskSound s.answered [⟨query, result⟩] (withPage task page result) := by
  have hnone : pagesBefore task page = [] := by
    unfold pagesBefore
    rw [hpage]
    apply List.filter_eq_nil_iff.mpr
    intro item hitem
    simpa using hsound.versions item hitem
  have hpages : (withPage task page result).businessEvidence = [result] := by
    change mergeBusinessEvidence (pagesBefore task page) result = [result]
    rw [hnone]
    rfl
  have hout : (withPage task page result).status.inReview = false := by
    change (if result.last then TaskStatus.verifying else .querying).inReview = false
    cases result.last
    · rfl
    · rfl
  have hempty : RoundSound s.answered [⟨query, result⟩] .verifying task.brief.version [result]
      none := by
    refine ⟨?_, ⟨?_, trivial⟩, ?_, rfl, Or.inl rfl, nofun, nofun⟩
    · intro other hother
      rw [List.mem_singleton.mp hother]
      exact hversion
    · rw [hquery, hpage]
      rfl
    · intro answer hmem
      rw [List.mem_singleton.mp hmem]
      exact hanswer
  unfold TaskSound
  rw [hpages]
  exact hempty.outOfReview hout

theorem withPage_inReview (task : CustomerServiceTask) (page : Option String)
    (result : BusinessEvidence) : (withPage task page result).status.inReview = false := by
  change (if result.last then TaskStatus.verifying else .querying).inReview = false
  cases result.last
  · rfl
  · rfl

theorem TaskSound.nextPage {before : CustomerServiceTask} {query : CustomerBusinessQuery}
    {result : BusinessEvidence} {page : Option String} {token : String}
    (hsound : TaskSound s.answered round task)
    (hsame : currentPages before = currentPages task) (hpage : present page = some token)
    (hcheck : checkPage before page = .ok ())
    (hquery : query.page = (present page).map jsTrim)
    (hanswer : ⟨query, result⟩ ∈ s.answered)
    (hversion : result.briefVersion = task.brief.version)
    (hnew : result.queryId ∉ task.businessEvidence.map (·.queryId)) :
    TaskSound s.answered (round ++ [⟨query, result⟩]) (withPage task page result) := by
  have hold : pagesBefore task page = task.businessEvidence := by
    unfold pagesBefore
    rw [hpage]
    rfl
  have hpages : (withPage task page result).businessEvidence =
      task.businessEvidence ++ [result] := by
    change mergeBusinessEvidence (pagesBefore task page) result = _
    rw [hold, mergeBusinessEvidence_new hnew]
  -- The page is named by the last stored one, and that one is the last of the round.
  have hasked : query.page = pageAfter none round := by
    have hnamed := checkPage_ok hcheck hpage
    rw [hsame, currentPages_eq hsound, hsound.last, List.getLast?_map] at hnamed
    cases hround : round.getLast? with
    | none =>
      rw [hround] at hnamed
      have hempty : (none : Option String) = page := hnamed
      rw [← hempty] at hpage
      cases hpage
    | some answer =>
      rw [hround] at hnamed
      have hnext : answer.evidence.nextPage = page := hnamed
      rw [pageAfter_getLast? hround, hquery, ← hnext]
      rfl
  have hout := withPage_inReview task page result
  have hwhole : task.businessEvidence ++ [result] =
        (round ++ [(⟨query, result⟩ : GatewayAnswer)]).map (·.evidence) ∨
      ∃ item ∈ (task.businessEvidence ++ [result]).dropLast, item.complete = true := by
    rcases hsound.whole with hpagesEq | ⟨item, hitem, hcomplete⟩
    · left
      rw [hpagesEq, List.map_append]
      rfl
    · right
      rw [List.dropLast_concat]
      exact ⟨item, List.dropLast_subset _ hitem, hcomplete⟩
  have hempty : RoundSound s.answered (round ++ [⟨query, result⟩]) .verifying
      task.brief.version (task.businessEvidence ++ [result]) none := by
    refine ⟨?_, (linkedFrom_append _ _ _).mpr ⟨hsound.linked, hasked⟩, ?_, ?_, hwhole, nofun,
      nofun⟩
    · intro other hother
      rcases List.mem_append.mp hother with hmem | hmem
      · exact hsound.versions other hmem
      · rw [List.mem_singleton.mp hmem]
        exact hversion
    · intro answer hmem
      rcases List.mem_append.mp hmem with hmem | hmem
      · exact hsound.answered answer hmem
      · rw [List.mem_singleton.mp hmem]
        exact hanswer
    · rw [List.map_append, List.map_singleton, List.getLast?_concat, List.getLast?_concat]
  unfold TaskSound
  rw [hpages]
  exact hempty.outOfReview hout

theorem TaskSound.draft (hsound : TaskSound s.answered round task) {input : CreateDraftInput}
    {text createdAt : String} {claims : List CustomerReplyClaim}
    (hclaims : draftClaims task input = .ok claims) :
    TaskSound s.answered round (withDraft task input text createdAt claims) := by
  obtain ⟨hwhole, hcited⟩ := draftClaims_ok hclaims
  have hcurrent := currentPages_eq hsound
  rw [hcurrent] at hwhole hcited
  refine ⟨hsound.versions, hsound.linked, hsound.answered, hsound.last, hsound.whole, ?_, nofun⟩
  intro _
  refine ⟨_, rfl, rfl, hcited, ?_, hwhole⟩
  change (currentPages task).map (·.queryId) = _
  rw [hcurrent]
  rfl

theorem TaskSound.review (hsound : TaskSound s.answered round task) {draft : CustomerReplyDraft}
    {input : ReviewDraftInput} {reviewedAt : String} (hdraft : task.draft = some draft)
    (hstatus : task.status = .awaitingReview) (hhuman : input.reviewer.actorType = .human) :
    TaskSound s.answered round (withReview task draft input reviewedAt) := by
  have hin : task.status.inReview = true := by
    rw [hstatus]
    rfl
  obtain ⟨d, hd, hdrafted⟩ := hsound.drafted hin
  rw [hdraft] at hd
  cases hd
  refine ⟨hsound.versions, hsound.linked, hsound.answered, hsound.last, hsound.whole, ?_, ?_⟩
  · intro _
    exact ⟨_, rfl, hdrafted.briefVersion, hdrafted.cited, hdrafted.listed, hdrafted.whole⟩
  · intro happroved d hd
    cases hd
    refine ⟨_, rfl, ?_, hhuman⟩
    cases hresult : input.result with
    | approved => rfl
    | rejected =>
      have hstatusNow : (withReview task draft input reviewedAt).status = .resolvingContext := by
        unfold withReview
        rw [hresult]
      rw [hstatusNow] at happroved
      cases happroved

/-- What a step between the states after the review changes, the draft does not say. -/
theorem TaskSound.inReview (hsound : TaskSound s.answered round task) {status : TaskStatus}
    {draft draft' : CustomerReplyDraft} (hdraft : task.draft = some draft)
    (happroved : task.status.isApproved = true)
    (hsame : draft' = draft ∨ ∃ sent, draft' = { draft with sent }) :
    RoundSound s.answered round status task.brief.version task.businessEvidence (some draft') := by
  have hin : task.status.inReview = true := by
    unfold TaskStatus.inReview
    rw [happroved, Bool.or_true]
  obtain ⟨d, hd, hdrafted⟩ := hsound.drafted hin
  have hreviewed := hsound.reviewed happroved draft hdraft
  rw [hdraft] at hd
  cases hd
  have hboth : Drafted task.brief.version task.businessEvidence draft' ∧ draft'.Reviewed := by
    rcases hsame with rfl | ⟨sent, rfl⟩
    · exact ⟨hdrafted, hreviewed⟩
    · exact ⟨⟨hdrafted.briefVersion, hdrafted.cited, hdrafted.listed, hdrafted.whole⟩,
        hreviewed⟩
  refine ⟨hsound.versions, hsound.linked, hsound.answered, hsound.last, hsound.whole, ?_, ?_⟩
  · intro _
    exact ⟨draft', rfl, hboth.1⟩
  · intro _ other hother
    cases hother
    exact hboth.2

theorem TaskSound.recheck (hsound : TaskSound s.answered round task)
    {draft : CustomerReplyDraft} {fresh : List GatewayAnswer}
    (hstatus : task.status = .approved) (hanswered : ∀ answer ∈ fresh, answer ∈ s.answered)
    (hversions : ∀ answer ∈ fresh, answer.evidence.briefVersion = task.brief.version)
    (hlinked : LinkedFrom none fresh) (hne : fresh ≠ [])
    (hkeeps : KeepsRound task.businessEvidence (.again fresh)) :
    TaskSound s.answered fresh (withFreshPages task draft (fresh.map (·.evidence))) := by
  have hne' : fresh.map (·.evidence) ≠ [] := by
    simpa using hne
  have hin : task.status.inReview = true := by
    rw [hstatus]
    rfl
  obtain ⟨d, _, hdrafted⟩ := hsound.drafted hin
  have hids : fresh.map (·.evidence.queryId) =
      (fresh.map (·.evidence)).map (·.queryId) := by
    rw [List.map_map]
    rfl
  have hwhole : (fresh.map (·.evidence)).foldl mergeBusinessEvidence task.businessEvidence =
        fresh.map (·.evidence) ∨
      ∃ page ∈ ((fresh.map (·.evidence)).foldl mergeBusinessEvidence
        task.businessEvidence).dropLast, page.complete = true := by
    rcases hkeeps with ⟨hnodup, hcover⟩ | hlast
    · left
      rw [hids] at hnodup hcover
      rw [foldl_merge_nodup hnodup]
      have hnone : task.businessEvidence.filter
          (fun item => item.queryId ∉ (fresh.map (·.evidence)).map (·.queryId)) = [] := by
        apply List.filter_eq_nil_iff.mpr
        intro item hitem
        simpa using hcover item hitem
      rw [hnone, List.nil_append]
    · -- The page that completes the chain is still there, and is no longer the last.
      right
      have hend := hdrafted.whole
      unfold wholeChain at hend
      rw [Bool.and_eq_true] at hend
      cases hpage : task.businessEvidence.getLast? with
      | none =>
        rw [hpage] at hend
        cases hend.1
      | some page =>
        rw [hpage] at hend
        have hcomplete : page.complete = true := by
          have hboth : page.last = true := hend.1
          unfold BusinessEvidence.last at hboth
          exact (Bool.and_eq_true_iff.mp hboth).1
        have hfree := hlast page hpage
        rw [hids] at hfree
        exact ⟨page, mem_dropLast_foldl_merge hne' (List.mem_of_getLast? hpage) hfree, hcomplete⟩
  refine ⟨?_, hlinked, hanswered, foldl_merge_getLast? hne', hwhole, nofun, nofun⟩
  intro page hpage
  rcases mem_foldl_merge hpage with hold | hnew
  · exact hsound.versions page hold
  · obtain ⟨answer, hanswer, rfl⟩ := List.mem_map.mp hnew
    exact hversions answer hanswer

theorem TaskSound.page {before : CustomerServiceTask} {query : CustomerBusinessQuery}
    {result : BusinessEvidence} {page : Option String}
    (hsound : TaskSound s.answered round task)
    (hsame : currentPages before = currentPages task)
    (hcheck : checkPage before page = .ok ())
    (hquery : query.page = (present page).map jsTrim)
    (hanswer : ⟨query, result⟩ ∈ s.answered)
    (hversion : result.briefVersion = task.brief.version)
    (hkeeps : KeepsRound task.businessEvidence (askedPage page ⟨query, result⟩)) :
    TaskSound s.answered ((askedPage page ⟨query, result⟩).after round)
      (withPage task page result) := by
  cases hpage : present page with
  | none =>
    have hasked : askedPage page ⟨query, result⟩ = .first ⟨query, result⟩ := by
      unfold askedPage
      rw [hpage]
      rfl
    rw [hasked]
    exact hsound.firstPage hpage hquery hanswer hversion
  | some token =>
    have hasked : askedPage page ⟨query, result⟩ = .continued ⟨query, result⟩ := by
      unfold askedPage
      rw [hpage]
      rfl
    rw [hasked] at hkeeps ⊢
    exact hsound.nextPage hsame hpage hcheck hquery hanswer hversion hkeeps

/-- A change keeps what holds of a task, when its pages keep to one round. -/
theorem TaskSound.change (hsound : TaskSound s.answered round task)
    (hh : AllStand stands h s) {changed : CustomerServiceTask} {asked : Asked}
    (hchange : Change options direct h task changed asked)
    (hkeeps : KeepsRound task.businessEvidence asked) :
    TaskSound s.answered (asked.after round) changed := by
  cases hchange with
  | search ids evidence continuations => exact hsound.outOfReview rfl
  | read evidence continuations hstatus => exact hsound
  | brief status brief hstatus =>
    have hempty : RoundSound s.answered [] .readyForQuery brief.version [] none :=
      ⟨nofun, trivial, nofun, rfl, Or.inl rfl, nofun, nofun⟩
    apply hempty.outOfReview
    rcases hstatus with rfl | rfl
    · rfl
    · rfl
  | querying => exact hsound.outOfReview rfl
  | page before page query result hbefore hcheck hquery hanswer hvalid =>
    exact hsound.page (askedTask_eq hh hbefore) hcheck (businessQuery_page hquery)
      (hh _ hanswer) (validateGatewayEvidence_version hvalid) hkeeps
  | draft input text createdAt claims hstatus hclaims htext => exact hsound.draft hclaims
  | review draft input reviewedAt hdraft hstatus hhuman =>
    exact hsound.review hdraft hstatus hhuman
  | recheck draft fresh hdraft hstatus hanswers hlinked hne =>
    apply hsound.recheck hstatus _ _ hlinked hne hkeeps
    · intro answer hmem
      exact hh _ (hanswers answer hmem).1
    · intro answer hmem
      exact validateGatewayEvidence_version (hanswers answer hmem).2
  | sending hstatus =>
    obtain ⟨d, hd, _⟩ := hsound.drafted (by rw [hstatus]; rfl)
    unfold TaskSound
    dsimp only
    rw [hd]
    exact hsound.inReview hd (by rw [hstatus]; rfl) (Or.inl rfl)
  | release hstatus =>
    obtain ⟨d, hd, _⟩ := hsound.drafted (by rw [hstatus]; rfl)
    unfold TaskSound
    dsimp only
    rw [hd]
    exact hsound.inReview hd (by rw [hstatus]; rfl) (Or.inl rfl)
  | sent draft id eventId sentAt hdraft hstatus hrecord =>
    exact hsound.inReview hdraft (by rw [hstatus]; rfl) (Or.inr ⟨_, rfl⟩)

end Changes

/-! ## Runs -/

section Runs

variable {options : CustomerOptions} {h : CustomerHistory} {s : CustomerState}

/-- Every stored task is as its query round. -/
structure RoundsSound (s : CustomerState) : Prop where
  books : Books s
  tasks : ∀ task ∈ s.tasks.rows, TaskSound s.answered (s.round task.key) task

theorem RoundsSound.put (hs : RoundsSound s) (hh : AllStand stands h s)
    {next : CustomerServiceTask} {expected : Option Nat} {asked : Asked}
    (hput : PutAllowed options True h next expected asked) {tasks : TaskTable}
    (hstored : Stored s.tasks next expected tasks)
    (hkeeps : ∀ stored ∈ s.tasks.get? next.key, expected = some stored.revision →
      KeepsRound stored.businessEvidence asked) :
    ∀ task ∈ tasks.rows,
      TaskSound s.answered ((s.stored tasks next asked).round task.key) task := by
  intro other hother
  have hget : tasks.get? other.key = some other := Table.get?_key hother
  rw [hstored.get?] at hget
  by_cases hkey : next.key = other.key
  · rw [if_pos hkey] at hget
    cases hget
    have hround : (s.stored tasks next asked).round next.key =
        asked.after (s.round next.key) := Function.update_self _ _ _
    rw [hround]
    rcases hput.stored hh hstored with ⟨_, _, hstatus, hpages, hdraft, rfl⟩ |
      ⟨task, changed, updatedAt, hold, hexpected, hchange, rfl⟩
    · have hempty : RoundSound s.answered [] .resolvingContext next.brief.version [] none :=
        ⟨nofun, trivial, nofun, rfl, Or.inl rfl, nofun, nofun⟩
      unfold TaskSound
      rw [hstatus, hpages, hdraft]
      exact hempty
    · obtain ⟨hmem, hsame⟩ := Table.get?_eq_some.mp hold
      have hchanged : TaskSound s.answered (asked.after (s.round task.key)) changed :=
        (hs.tasks task hmem).change hh hchange (hkeeps task hold hexpected)
      rw [← hsame]
      exact hchanged
  · rw [if_neg hkey] at hget
    have hround : (s.stored tasks next asked).round other.key = s.round other.key :=
      Function.update_of_ne (Ne.symm hkey) _ _
    rw [hround]
    exact hs.tasks other (Table.get?_eq_some.mp hget).1

theorem roundsSound_step (c : CustomerCall) (w : CustomerEnv) (hs : RoundsSound s)
    (hh : AllStand stands h s) (hc : allowedCall options True h c) (hcond : OneRound c w s) :
    RoundsSound (c.exec options w s).2 := by
  refine ⟨(stepKept hs.books hh c hc w).books, ?_⟩
  cases c with
  | getCustomerServiceTask taskId => exact hs.tasks
  | outside question => exact hs.tasks
  | reply call =>
    have htasks : (CustomerCall.exec options (.reply call) w s).2.tasks = s.tasks ∧
        (CustomerCall.exec options (.reply call) w s).2.round = s.round ∧
        (CustomerCall.exec options (.reply call) w s).2.answered = s.answered := by
      change (s.sent call w.reply).tasks = s.tasks ∧ (s.sent call w.reply).round = s.round ∧
        (s.sent call w.reply).answered = s.answered
      unfold CustomerState.sent
      split
      · exact ⟨rfl, rfl, rfl⟩
      · split
        · split
          · exact ⟨rfl, rfl, rfl⟩
          · exact ⟨rfl, rfl, rfl⟩
        · exact ⟨rfl, rfl, rfl⟩
      · exact ⟨rfl, rfl, rfl⟩
    rw [htasks.1, htasks.2.1, htasks.2.2]
    exact hs.tasks
  | queryBusiness query =>
    change ∀ task ∈ (s.answer query w.business).2.tasks.rows,
      TaskSound (s.answer query w.business).2.answered
        ((s.answer query w.business).2.round task.key) task
    cases w.business with
    | error thrown => exact hs.tasks
    | ok evidence =>
      intro task htask
      exact (hs.tasks task htask).answeredMore fun _ hmem => List.mem_append_left _ hmem
  | putCustomerServiceTask next expected asked =>
    have hexec : (CustomerCall.exec options (.putCustomerServiceTask next expected asked) w s).2 =
        (s.put options.dateParse next expected asked).2 := rfl
    rw [hexec]
    cases hput : putCustomerServiceTask options.dateParse s.tasks next expected with
    | error thrown =>
      rw [put_error hput]
      exact hs.tasks
    | ok result =>
      obtain ⟨task, tasks⟩ := result
      obtain ⟨rfl, hstored⟩ := putCustomerServiceTask_ok hput
      rw [put_ok hput]
      exact hs.put hh hc hstored hcond

theorem roundsSound_keeps :
    Pool.Keeps (historyProtocol (allowedCall options True)) startHistory
      (CustomerCall.exec options) (fun _ _ => (none : Option (CustomerProg Unit))) OneRound
      fun modes s => RoundsSound s ∧ ∀ i, AllStand stands (modes i) s := by
  apply Pool.Keeps.of_standing
  · intro h s c w hs hh hc hcond
    have hkept := stepKept hs.books hh c hc w
    exact ⟨roundsSound_step c w hs hh hc hcond, hkept.told, hkept.later.stands⟩
  · intro h c r p _ hfork
    cases hfork

theorem RoundsSound.approved (hs : RoundsSound s) : RepliesApproved s := by
  constructor
  intro task htask hstatus
  have hsound := hs.tasks task htask
  have hin : task.status.inReview = true := by
    unfold TaskStatus.inReview
    rw [hstatus, Bool.or_true]
  obtain ⟨draft, hdraft, hdrafted⟩ := hsound.drafted hin
  have hpages := hsound.pages_eq hin
  have hlisted : listedPages task draft = task.businessEvidence := by
    unfold listedPages
    apply List.filter_eq_self.mpr
    intro page hpage
    rw [hdrafted.listed]
    simpa using ⟨page, hpage, rfl⟩
  refine ⟨draft, hdraft, hsound.reviewed hstatus draft hdraft, hdrafted.briefVersion, ?_, ?_, ?_,
    ⟨hsound.linked, hpages ▸ hdrafted.whole⟩, hsound.answered⟩
  · rw [hlisted]
    exact hdrafted.cited
  · rw [hlisted, hdrafted.listed]
  · rw [hlisted, hpages]

theorem start_follow {direct : Prop} (requests : List Request)
    (hdirect : ∀ request ∈ requests, ∀ taskId input,
      request = .recordSent taskId input → direct) :
    Pool.Follow (historyProtocol (allowedCall options direct)) (fun _ _ _ => True)
      (fun _ => []) (CustomerPool.start options requests) := by
  intro i p hp
  have hprocs : (requests.map (Request.prog options))[i]? = some p := hp
  rw [List.getElem?_map, Option.map_eq_some_iff] at hprocs
  obtain ⟨request, hrequest, rfl⟩ := hprocs
  exact (prog_obeys request (hdirect request (List.mem_of_getElem? hrequest))).follows

theorem books_empty : Books {} :=
  ⟨fun _ hmem => absurd hmem List.not_mem_nil, rfl, fun _ hmem => absurd hmem List.not_mem_nil,
    fun _ hmem => absurd hmem List.not_mem_nil, fun _ hmem => absurd hmem List.not_mem_nil⟩

/-- However the requests interleave and whatever the gateway answers, a task that is approved,
being sent or sent is so with a draft that a human approved for its brief, made from the pages of
one whole query round, as long as a continuation comes with a query id of its own and a
revalidation that finds other facts replaces all pages or leaves the last one. -/
theorem replies_approved (options : CustomerOptions) (requests : List Request)
    (events : List (Nat × CustomerEnv))
    (hmeets : Along (CustomerPool.step options) (Pool.Meets OneRound)
      (.start options requests) events) :
    RepliesApproved (run (CustomerPool.step options) (.start options requests) events).state := by
  have hstart : RoundsSound (CustomerPool.start options requests).state :=
    ⟨books_empty, fun _ hmem => absurd hmem List.not_mem_nil⟩
  obtain ⟨_, _, hsound, _⟩ := roundsSound_keeps.run (Pool.freeEnds_true _)
    (start_follow requests fun _ _ _ _ _ => trivial)
    ⟨hstart, fun _ _ hmem => absurd hmem List.not_mem_nil⟩ events hmeets
  exact hsound.approved

end Runs

end Regenic.Customer
