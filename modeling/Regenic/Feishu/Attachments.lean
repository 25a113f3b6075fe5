import Regenic.Feishu.Connector
import Regenic.Lib.Run

/-!
Attachments over a run of polls. A job leaves the store when its bytes have come, and the host
commits the record that carries them afterwards, or does not.
-/

namespace Regenic.Feishu

open Lib Ingest

/-! ## Runs -/

/-- What is stored between two polls, and what has been told and tried until then. -/
structure MediaRun where
  /-- The media job store. -/
  jobs : List FeishuMediaJob := []
  /-- The cursors that polls have returned. -/
  issued : List String := []
  /-- The records of the pages that were committed. -/
  records : List ChannelRecord := []
  /-- The downloads that were tried, by message and key. -/
  tries : List (String × String) := []

/-- One poll, and whether the host commits what it returns. -/
structure HostPoll where
  cursor : Option String := none
  poll : ConnectorPollOptions := {}
  answers : FeishuAnswers
  committed : Bool

section Runs

variable (env : FeishuEnv) (options : FeishuChatPollConnectorOptions)

def HostPoll.prepared (e : HostPoll) (s : MediaRun) : Option PreparedPoll :=
  preparePoll env options e.answers e.cursor e.poll s.jobs

/-- The jobs whose download a prepared poll tries. -/
def HostPoll.tried (e : HostPoll) (prepared : PreparedPoll) : List FeishuMediaJob :=
  if prepared.drains ∧ e.answers.downloadResource.isSome then
    triedJobs prepared.queue (clockMs env e.answers)
  else []

def HostPoll.step (s : MediaRun) (e : HostPoll) : MediaRun :=
  match e.prepared env options s with
  | none => s
  | some prepared =>
    let drained := prepared.drained env options e.answers
    let result := prepared.finish env options e.answers e.cursor drained
    { jobs := drained.2
      issued := result.nextCursor.toList ++ s.issued
      records := if e.committed then s.records ++ result.records else s.records
      tries := s.tries ++ (e.tried env prepared).map fun job => (job.messageId, job.key) }

/-- What a step stores is what the poll of the source stores and returns. -/
theorem HostPoll.step_pollInSlot (s : MediaRun) (e : HostPoll) :
    (pollInSlot env options e.answers e.cursor e.poll s.jobs = none ∧
        e.step env options s = s) ∨
      ∃ result jobs, pollInSlot env options e.answers e.cursor e.poll s.jobs =
          some (result, jobs) ∧
        (e.step env options s).jobs = jobs ∧
        (e.step env options s).records =
          (if e.committed then s.records ++ result.records else s.records) ∧
        (e.step env options s).issued = result.nextCursor.toList ++ s.issued := by
  unfold HostPoll.step HostPoll.prepared pollInSlot
  cases preparePoll env options e.answers e.cursor e.poll s.jobs with
  | none => exact .inl ⟨rfl, rfl⟩
  | some prepared => exact .inr ⟨_, _, rfl, rfl, rfl, rfl⟩

/-- The part refers to the attachment of the key, by its bytes or by a pointer. -/
def refersTo (part : ContentPart) (key : String) : Prop :=
  ∃ kind, part.externalLocator? = some (feishuMediaLocator kind key)

namespace MediaRun

variable (s : MediaRun)

/-- A committed record of the message refers to the attachment. -/
def Referenced (messageId key : String) : Prop :=
  ∃ record ∈ s.records, record.operation = .create ∧
    record.externalId = options.chatId ++ ":" ++ messageId ∧
    ∃ part ∈ record.content, refersTo part key

/-- A committed revise record of the message carries the bytes. -/
def Resolved (messageId key : String) : Prop :=
  ∃ record ∈ s.records, record.operation = .revise ∧
    record.externalId = options.chatId ++ ":" ++ messageId ∧
    ∃ part ∈ record.content, refersTo part key ∧ ∃ bytes, part.bytes? = some bytes ∧ bytes ≠ []

def Queued (messageId key : String) : Prop :=
  ∃ job ∈ s.jobs, job.messageId = messageId ∧ job.key = key

def triesOf (messageId key : String) : Nat := s.tries.count (messageId, key)

/-- Every attachment of a committed message is resolved, queued or given up. -/
def AttachmentsSurvive : Prop :=
  ∀ messageId key, s.Referenced options messageId key →
    s.Resolved options messageId key ∨ s.Queued messageId key ∨
      maxFeishuMediaAttempts ≤ s.triesOf messageId key

end MediaRun

/-- The host hands over no cursor or one it was given, and no more attachments are outstanding
than the queue holds. -/
structure HostPoll.Fits (s : MediaRun) (e : HostPoll) : Prop where
  cursor : ∀ cursor, e.cursor = some cursor → cursor ∈ s.issued
  outstanding : ∀ prepared, e.prepared env options s = some prepared →
    (queuedWith s.jobs prepared.snapshots).length ≤ maxFeishuMediaJobs

/-- The attachment of a message that is committed before the poll or by it. -/
def HostPoll.Concerns (s : MediaRun) (e : HostPoll) (prepared : PreparedPoll)
    (messageId key : String) : Prop :=
  s.Referenced options messageId key ∨
    e.committed ∧ ∃ snapshot ∈ prepared.snapshots, snapshot.messageId = messageId ∧
      ∃ ref ∈ snapshot.refs, ref.key = key

/-- Where bytes come for an attachment of a committed message that is not settled yet, the host
commits the page and the first due job of the message lists the attachment. And two attachments
of different messages do not share a job key. -/
structure HostPoll.Delivers (s : MediaRun) (e : HostPoll) : Prop where
  own : ∀ prepared, e.prepared env options s = some prepared → e.committed →
    ∀ snapshot ∈ prepared.snapshots, ∀ ref ∈ snapshot.refs, ∀ job ∈ prepared.queue,
      job.jobKey = mediaJobKey snapshot.messageId ref.key →
        job.messageId = snapshot.messageId ∧ job.key = ref.key
  carried : ∀ prepared download, e.prepared env options s = some prepared → prepared.drains →
    e.answers.downloadResource = some download →
    ∀ job ∈ dueJobs prepared.queue (clockMs env e.answers),
      (downloadMediaJob download job).isSome →
      e.Concerns options s prepared job.messageId job.key →
        s.Resolved options job.messageId job.key ∨
        maxFeishuMediaAttempts ≤ s.triesOf job.messageId job.key + 1 ∨
        e.committed ∧ ((dueJobs prepared.queue (clockMs env e.answers)).find? fun first =>
          first.messageId = job.messageId).any fun first =>
            first.refs.any fun ref => ref.key = job.key

end Runs

/-! ## The queue -/

/-- What queueing does: no job goes, what comes has not been tried, and no key comes twice. -/
structure Grown (jobs jobs' : List FeishuMediaJob) : Prop where
  kept : ∀ job ∈ jobs, job ∈ jobs'
  fresh : ∀ job ∈ jobs', job ∈ jobs ∨ job.attempts = 0
  nodup : (jobs.map (·.jobKey)).Nodup → (jobs'.map (·.jobKey)).Nodup

theorem Grown.refl (jobs : List FeishuMediaJob) : Grown jobs jobs :=
  ⟨fun _ h => h, fun _ h => .inl h, fun h => h⟩

theorem Grown.trans {first second third : List FeishuMediaJob} (h : Grown first second)
    (h' : Grown second third) : Grown first third where
  kept job hjob := h'.kept job (h.kept job hjob)
  fresh job hjob := by
    rcases h'.fresh job hjob with hold | hnew
    · exact h.fresh job hold
    · exact .inr hnew
  nodup hnodup := h'.nodup (h.nodup hnodup)

theorem grown_foldl {α : Type} {f : List FeishuMediaJob → α → List FeishuMediaJob}
    (hf : ∀ jobs a, Grown jobs (f jobs a)) (items : List α) (jobs : List FeishuMediaJob) :
    Grown jobs (items.foldl f jobs) := by
  induction items generalizing jobs with
  | nil => exact .refl jobs
  | cons a rest ih => exact (hf jobs a).trans (ih (f jobs a))

theorem grown_enqueueRef (snapshot : FeishuSnapshot) (jobs : List FeishuMediaJob)
    (ref : FeishuMediaRef) : Grown jobs (enqueueRef snapshot jobs ref) := by
  unfold enqueueRef
  split
  · exact .refl jobs
  · next hfree =>
    refine ⟨fun job hjob => List.mem_append_left _ hjob, fun job hjob => ?_, fun hnodup => ?_⟩
    · rcases List.mem_append.mp hjob with hold | hnew
      · exact .inl hold
      · cases List.mem_singleton.mp hnew
        exact .inr rfl
    · rw [List.map_append, List.map_singleton]
      refine List.Nodup.append hnodup (List.nodup_singleton _) fun key hkey hnew => hfree ?_
      obtain ⟨job, hjob, rfl⟩ := List.mem_map.mp hkey
      exact List.any_eq_true.mpr ⟨job, hjob, decide_eq_true (List.mem_singleton.mp hnew)⟩

theorem grown_queuedWith (jobs : List FeishuMediaJob) (snapshots : List FeishuSnapshot) :
    Grown jobs (queuedWith jobs snapshots) :=
  grown_foldl (fun jobs snapshot => grown_foldl (grown_enqueueRef snapshot) snapshot.refs jobs)
    snapshots jobs

theorem enqueueRef_queued (snapshot : FeishuSnapshot) (jobs : List FeishuMediaJob)
    (ref : FeishuMediaRef) :
    ∃ job ∈ enqueueRef snapshot jobs ref,
      job.jobKey = mediaJobKey snapshot.messageId ref.key := by
  unfold enqueueRef
  split
  · next htaken =>
    obtain ⟨job, hjob, hkey⟩ := List.any_eq_true.mp htaken
    exact ⟨job, hjob, of_decide_eq_true hkey⟩
  · exact ⟨snapshot.job ref, by simp, rfl⟩

/-- What one item of a fold puts in the queue is there after the fold. -/
theorem foldl_queued {α : Type} {f : List FeishuMediaJob → α → List FeishuMediaJob}
    (hf : ∀ jobs a, Grown jobs (f jobs a)) {p : FeishuMediaJob → Prop} {a : α}
    (ha : ∀ jobs, ∃ job ∈ f jobs a, p job) {items : List α} (hmem : a ∈ items)
    (jobs : List FeishuMediaJob) : ∃ job ∈ items.foldl f jobs, p job := by
  induction items generalizing jobs with
  | nil => cases hmem
  | cons b rest ih =>
    rcases List.mem_cons.mp hmem with rfl | hrest
    · obtain ⟨job, hjob, hp⟩ := ha jobs
      exact ⟨job, (grown_foldl hf rest (f jobs a)).kept job hjob, hp⟩
    · exact ih hrest (f jobs b)

/-- Every reference of a page has its key in the queue. -/
theorem queuedWith_queued {snapshots : List FeishuSnapshot} {snapshot : FeishuSnapshot}
    (hsnapshot : snapshot ∈ snapshots) {ref : FeishuMediaRef} (href : ref ∈ snapshot.refs)
    (jobs : List FeishuMediaJob) :
    ∃ job ∈ queuedWith jobs snapshots, job.jobKey = mediaJobKey snapshot.messageId ref.key := by
  refine foldl_queued
    (fun jobs snapshot => grown_foldl (grown_enqueueRef snapshot) snapshot.refs jobs)
    (fun jobs => ?_) hsnapshot jobs
  exact foldl_queued (grown_enqueueRef snapshot)
    (fun jobs => enqueueRef_queued snapshot jobs ref) href jobs

/-! ## The downloads -/

section Downloads

variable {download : FeishuDownloadResource → Option FeishuDownloadedFile}
  {jobs : List FeishuMediaJob} {nowMs : ℚ}

theorem mem_of_mem_dueJobs {job : FeishuMediaJob} (h : job ∈ dueJobs jobs nowMs) : job ∈ jobs :=
  (List.mem_filter.mp (List.mem_of_mem_take h)).1

/-- Where no key comes twice, the jobs that are tried are the due ones. -/
theorem due_iff (hnodup : (jobs.map (·.jobKey)).Nodup) {job : FeishuMediaJob}
    (hjob : job ∈ jobs) :
    ((dueJobs jobs nowMs).any fun due => due.jobKey = job.jobKey) = true ↔
      job ∈ dueJobs jobs nowMs := by
  rw [List.any_eq_true]
  constructor
  · rintro ⟨due, hdue, hkey⟩
    have hsame : due = job := List.inj_on_of_nodup_map hnodup (mem_of_mem_dueJobs hdue) hjob
      (of_decide_eq_true hkey)
    exact hsame ▸ hdue
  · exact fun hdue => ⟨job, hdue, decide_eq_true rfl⟩

/-- A try changes neither the message nor the key of a job. -/
theorem retriedJob_some {job job' : FeishuMediaJob}
    (h : retriedJob download nowMs job = some job') :
    job'.messageId = job.messageId ∧ job'.key = job.key ∧
      job'.attempts = job.attempts + 1 ∧ downloadMediaJob download job = none := by
  unfold retriedJob at h
  split at h
  · cases h
  · next hnone =>
    split at h
    · cases h
    · cases h
      exact ⟨rfl, rfl, rfl, hnone⟩

theorem mem_remainingJobs {job' : FeishuMediaJob} :
    job' ∈ remainingJobs download jobs nowMs ↔ ∃ job ∈ jobs,
      (if (dueJobs jobs nowMs).any fun due => due.jobKey = job.jobKey then
        retriedJob download nowMs job else some job) = some job' := by
  rw [remainingJobs, List.mem_filterMap]

/-- A partial map that keeps keys leaves the keys in their order. -/
theorem filterMap_key_sublist {α κ : Type} {key : α → κ} {f : α → Option α}
    (hf : ∀ a b, f a = some b → key b = key a) (items : List α) :
    ((items.filterMap f).map key).Sublist (items.map key) := by
  induction items with
  | nil => exact List.Sublist.slnil
  | cons a rest ih =>
    cases hfa : f a with
    | none =>
      rw [List.filterMap_cons_none hfa]
      exact ih.trans (List.sublist_cons_self _ _)
    | some b =>
      rw [List.filterMap_cons_some hfa, List.map_cons, List.map_cons, hf a b hfa]
      exact ih.cons₂ _

theorem nodup_remainingJobs (hnodup : (jobs.map (·.jobKey)).Nodup) :
    ((remainingJobs download jobs nowMs).map (·.jobKey)).Nodup := by
  refine (filterMap_key_sublist ?_ jobs).nodup hnodup
  intro job job' h
  split at h
  · obtain ⟨hmessage, hkey, -, -⟩ := retriedJob_some h
    rw [FeishuMediaJob.jobKey, FeishuMediaJob.jobKey, hmessage, hkey]
  · cases h
    rfl

/-- A map that was set once under a key answers with what was set. -/
theorem mapGet_eq {α : Type} {entries : List (String × α)} {key : String} {value : α}
    (hmem : (key, value) ∈ entries)
    (hunique : ∀ entry ∈ entries, entry.1 = key → entry.2 = value) :
    mapGet entries key = some value := by
  unfold mapGet
  cases hfound : entries.reverse.find? fun entry => entry.1 = key with
  | none =>
    have hnone := List.find?_eq_none.mp hfound (key, value) (List.mem_reverse.mpr hmem)
    simp at hnone
  | some entry =>
    have hentry := List.mem_reverse.mp (List.mem_of_find?_eq_some hfound)
    have hkey : entry.1 = key := by simpa using List.find?_some hfound
    rw [Option.map_some, hunique entry hentry hkey]

theorem mapGet_downloaded (hnodup : (jobs.map (·.jobKey)).Nodup) {job : FeishuMediaJob}
    (hdue : job ∈ dueJobs jobs nowMs) {part : ContentPart}
    (hpart : downloadMediaJob download job = some part) :
    mapGet (downloadedParts download jobs nowMs) job.jobKey = some part := by
  have hjob := mem_of_mem_dueJobs hdue
  refine mapGet_eq ?_ ?_
  · refine List.mem_filterMap.mpr ⟨job, List.mem_filter.mpr ⟨hjob, ?_⟩, by simp [hpart]⟩
    exact (due_iff hnodup hjob).mpr hdue
  · rintro ⟨key, value⟩ hmem rfl
    obtain ⟨other, hother, hvalue⟩ := List.mem_filterMap.mp hmem
    obtain ⟨part', hpart', hpair⟩ := Option.map_eq_some_iff.mp hvalue
    have hkey : other.jobKey = job.jobKey := congrArg Prod.fst hpair
    have hsame : other = job :=
      List.inj_on_of_nodup_map hnodup (List.mem_filter.mp hother).1 hjob hkey
    rw [hsame, hpart] at hpart'
    exact (congrArg Prod.snd hpair).symm.trans (Option.some.inj hpart').symm

/-- The bytes that a download brings refer to the job's attachment. -/
theorem downloadMediaJob_some {job : FeishuMediaJob} {part : ContentPart}
    (h : downloadMediaJob download job = some part) :
    refersTo part job.key ∧ ∃ bytes, part.bytes? = some bytes ∧ bytes ≠ [] := by
  unfold downloadMediaJob at h
  obtain ⟨file, -, h⟩ := Option.bind_eq_some_iff.mp h
  split at h
  · cases h
  · next hbytes =>
    rw [not_or] at hbytes
    cases h
    refine ⟨⟨job.kind, ?_⟩, file.bytes, rfl, hbytes.1⟩
    exact present_some.mpr ⟨rfl, feishuMediaLocator_ne_empty job.kind job.key⟩

end Downloads

/-! ## The prepared poll -/

section Prepared

variable {env : FeishuEnv} {options : FeishuChatPollConnectorOptions} {answers : FeishuAnswers}
  {cursor : Option String} {poll : ConnectorPollOptions} {stored : List FeishuMediaJob}
  {prepared : PreparedPoll}

/-- A poll whose cursor carries no jobs queues the references of its page, and writes a cursor. -/
theorem preparePoll_some (hcursor : (decodeFeishuCursor env.number cursor).mediaJobs = [])
    (h : preparePoll env options answers cursor poll stored = some prepared) :
    (prepared.queue = stored ∧ prepared.snapshots = [] ∨
        prepared.queue = enqueueFromItems stored prepared.snapshots) ∧
      ∃ state, prepared.nextCursor = encodeFeishuCursor state := by
  have hhydrated : hydrateMediaJobs stored [] = stored := if_pos rfl
  simp only [preparePoll, hcursor, hhydrated] at h
  split at h
  · cases h
    exact ⟨.inl ⟨rfl, rfl⟩, _, rfl⟩
  · split at h
    · cases h
      exact ⟨.inl ⟨rfl, rfl⟩, _, rfl⟩
    · obtain ⟨page, -, h⟩ := Option.bind_eq_some_iff.mp h
      obtain ⟨names, -, h⟩ := Option.bind_eq_some_iff.mp h
      cases h
      exact ⟨.inr rfl, _, rfl⟩

theorem enqueueFromItems_fits {snapshots : List FeishuSnapshot}
    (h : (queuedWith stored snapshots).length ≤ maxFeishuMediaJobs) :
    enqueueFromItems stored snapshots = queuedWith stored snapshots := by
  have hzero : (queuedWith stored snapshots).length - maxFeishuMediaJobs = 0 :=
    Nat.sub_eq_zero_of_le h
  rw [enqueueFromItems, hzero, List.drop_zero]

theorem hostPoll_queue {s : MediaRun} {e : HostPoll} (hfits : e.Fits env options s)
    (hcursor : (decodeFeishuCursor env.number e.cursor).mediaJobs = [])
    (h : e.prepared env options s = some prepared) :
    prepared.queue = queuedWith s.jobs prepared.snapshots := by
  obtain ⟨⟨hqueue, hnone⟩ | hqueue, -⟩ := preparePoll_some hcursor h
  · rw [hqueue, hnone]
    rfl
  · rw [hqueue, enqueueFromItems_fits (hfits.outstanding prepared h)]

end Prepared

end Regenic.Feishu
