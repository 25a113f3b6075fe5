import Regenic.Feishu.Attachments

/-!
Which runs lose no attachment: those in which the host commits every page that brings bytes, and
in which the job that a revision is made of lists what was brought.
-/

namespace Regenic.Feishu

open Lib Ingest

section Records

variable {options : FeishuChatPollConnectorOptions}
  {download : FeishuDownloadResource → Option FeishuDownloadedFile} {jobs : List FeishuMediaJob}
  {nowMs : ℚ}

/-- With nothing due, a drain is a drain that tries nothing. -/
theorem drainMediaJobs_some :
    drainMediaJobs options (some download) jobs nowMs =
      (recordsFromDownloads options (downloadedParts download jobs nowMs)
        (dueJobs jobs nowMs ++ remainingJobs download jobs nowMs),
        remainingJobs download jobs nowMs) := by
  unfold drainMediaJobs
  by_cases hdue : dueJobs jobs nowMs = []
  · have hremaining : remainingJobs download jobs nowMs = jobs := by
      simp [remainingJobs, hdue]
    have hparts : downloadedParts download jobs nowMs = [] := by
      simp [downloadedParts, triedJobs, hdue]
    simp only [hdue, hremaining, hparts, recordsFromDownloads, if_true]
  · simp only [if_neg hdue]

/-- Every record of a drain is a revision. -/
theorem recordsFromDownloads_revise {downloaded : List (String × ContentPart)}
    {record : ChannelRecord} (h : record ∈ recordsFromDownloads options downloaded jobs) :
    record.operation = .revise := by
  unfold recordsFromDownloads at h
  split at h
  · cases h
  · obtain ⟨job, -, hrecord⟩ := List.mem_filterMap.mp h
    dsimp only at hrecord
    split at hrecord
    · cases hrecord
      rfl
    · cases hrecord

/-- The record of a message carries the bytes that its first job lists. -/
theorem recordsFromDownloads_some {downloaded : List (String × ContentPart)}
    {first : FeishuMediaJob} {messageId : String}
    (hfirst : (jobs.find? fun job => job.messageId = messageId) = some first)
    {ref : FeishuMediaRef} (href : ref ∈ first.refs) {part : ContentPart}
    (hpart : mapGet downloaded (mediaJobKey first.messageId ref.key) = some part)
    {bytes : Bytes} (hbytes : part.bytes? = some bytes) (hne : bytes ≠ []) :
    recordFromSnapshot options first.toFeishuSnapshot (resolvedAttachments downloaded first)
        .revise ∈ recordsFromDownloads options downloaded jobs ∧
      part ∈ resolvedAttachments downloaded first := by
  have hmem : part ∈ resolvedAttachments downloaded first :=
    List.mem_map.mpr ⟨ref, href, by rw [hpart, Option.getD_some]⟩
  refine ⟨?_, hmem⟩
  have hdownloaded : downloaded ≠ [] := by
    rintro rfl
    cases hpart
  rw [recordsFromDownloads, if_neg hdownloaded]
  apply List.mem_filterMap.mpr
  refine ⟨first, mem_keepFirst_of_find? hfirst, if_pos ?_⟩
  apply List.any_eq_true.mpr
  exact ⟨part, hmem, by rw [hbytes]; exact decide_eq_true hne⟩

end Records

/-! ## One poll -/

section Step

variable {env : FeishuEnv} {options : FeishuChatPollConnectorOptions} {s : MediaRun}
  {e : HostPoll} {prepared : PreparedPoll}

/-- What holds between two polls: no key is queued twice, a job counts no more tries than were
made, and no cursor carries jobs. -/
structure MediaRun.Consistent (env : FeishuEnv) (s : MediaRun) : Prop where
  nodup : (s.jobs.map (·.jobKey)).Nodup
  tried : ∀ job ∈ s.jobs, job.attempts ≤ s.triesOf job.messageId job.key
  issued : ∀ cursor ∈ s.issued, (decodeFeishuCursor env.number (some cursor)).mediaJobs = []

theorem consistent_start (env : FeishuEnv) : ({} : MediaRun).Consistent env where
  nodup := List.nodup_nil
  tried _ h := nomatch h
  issued _ h := nomatch h

theorem MediaRun.Consistent.mediaJobs (h : s.Consistent env) (hfits : e.Fits env options s) :
    (decodeFeishuCursor env.number e.cursor).mediaJobs = [] := by
  cases hcursor : e.cursor with
  | none => rfl
  | some cursor => exact h.issued cursor (hfits.cursor cursor hcursor)

/-- The parts of a step. -/
theorem HostPoll.step_some (h : e.prepared env options s = some prepared) :
    e.step env options s =
      { jobs := (prepared.drained env options e.answers).2
        issued := prepared.nextCursor.toList ++ s.issued
        records :=
          if e.committed then
            s.records ++ (prepared.snapshots.map (toRecord options) ++
              (prepared.drained env options e.answers).1)
          else s.records
        tries := s.tries ++
          (e.tried env prepared).map fun job => (job.messageId, job.key) } := by
  unfold HostPoll.step
  rw [h]
  rfl

theorem HostPoll.step_none (h : e.prepared env options s = none) :
    e.step env options s = s := by
  unfold HostPoll.step
  rw [h]

/-- A poll either leaves its queue as it is or tries what is due of it. -/
theorem drained_cases (env : FeishuEnv) (options : FeishuChatPollConnectorOptions)
    (e : HostPoll) (prepared : PreparedPoll) :
    (prepared.drained env options e.answers = ([], prepared.queue) ∧ e.tried env prepared = []) ∨
      ∃ download, prepared.drains ∧ e.answers.downloadResource = some download ∧
        prepared.drained env options e.answers =
          (recordsFromDownloads options
            (downloadedParts download prepared.queue (clockMs env e.answers))
            (dueJobs prepared.queue (clockMs env e.answers) ++
              remainingJobs download prepared.queue (clockMs env e.answers)),
            remainingJobs download prepared.queue (clockMs env e.answers)) ∧
        e.tried env prepared = triedJobs prepared.queue (clockMs env e.answers) := by
  unfold PreparedPoll.drained HostPoll.tried
  cases hdrains : prepared.drains with
  | false => exact .inl ⟨rfl, by simp⟩
  | true =>
    cases hdownload : e.answers.downloadResource with
    | none => exact .inl ⟨rfl, by simp⟩
    | some download =>
      exact .inr ⟨download, rfl, rfl, by rw [if_pos rfl, drainMediaJobs_some], by simp⟩

theorem triesOf_step (h : e.prepared env options s = some prepared) (messageId key : String) :
    (e.step env options s).triesOf messageId key = s.triesOf messageId key +
      ((e.tried env prepared).map fun job => (job.messageId, job.key)).count (messageId, key) := by
  rw [HostPoll.step_some h, MediaRun.triesOf, List.count_append]
  rfl

/-- The tries count up. -/
theorem triesOf_mono (e : HostPoll) (s : MediaRun) (messageId key : String) :
    s.triesOf messageId key ≤ (e.step env options s).triesOf messageId key := by
  cases h : e.prepared env options s with
  | none => rw [HostPoll.step_none h]
  | some prepared =>
    rw [triesOf_step h]
    exact Nat.le_add_right _ _

/-- A due job is tried. -/
theorem triesOf_due (h : e.prepared env options s = some prepared)
    (htried : e.tried env prepared = triedJobs prepared.queue (clockMs env e.answers))
    {job : FeishuMediaJob} (hjob : job ∈ prepared.queue)
    (hdue : ((dueJobs prepared.queue (clockMs env e.answers)).any
      fun due => due.jobKey = job.jobKey) = true) :
    s.triesOf job.messageId job.key + 1 ≤
      (e.step env options s).triesOf job.messageId job.key := by
  rw [triesOf_step h, htried]
  apply Nat.add_le_add_left
  apply List.count_pos_iff.mpr
  exact List.mem_map.mpr ⟨job, List.mem_filter.mpr ⟨hjob, hdue⟩, rfl⟩

/-- A job in the queue counts no more tries than were made. -/
theorem queue_tried (hs : s.Consistent env)
    (hqueue : prepared.queue = queuedWith s.jobs prepared.snapshots) {job : FeishuMediaJob}
    (hjob : job ∈ prepared.queue) : job.attempts ≤ s.triesOf job.messageId job.key := by
  rw [hqueue] at hjob
  rcases (grown_queuedWith s.jobs prepared.snapshots).fresh job hjob with hold | hnew
  · exact hs.tried job hold
  · rw [hnew]
    exact Int.natCast_nonneg _

theorem queue_nodup (hs : s.Consistent env)
    (hqueue : prepared.queue = queuedWith s.jobs prepared.snapshots) :
    (prepared.queue.map (·.jobKey)).Nodup :=
  hqueue ▸ (grown_queuedWith s.jobs prepared.snapshots).nodup hs.nodup

theorem consistent_step (hs : s.Consistent env) (hfits : e.Fits env options s) :
    (e.step env options s).Consistent env := by
  cases h : e.prepared env options s with
  | none =>
    rw [HostPoll.step_none h]
    exact hs
  | some prepared =>
    have hqueue := hostPoll_queue hfits (hs.mediaJobs hfits) h
    have hnodup := queue_nodup hs hqueue
    have hjobs : (e.step env options s).jobs = (prepared.drained env options e.answers).2 := by
      rw [HostPoll.step_some h]
    have hissued : ∀ cursor ∈ (e.step env options s).issued,
        (decodeFeishuCursor env.number (some cursor)).mediaJobs = [] := by
      intro cursor hcursor
      rw [HostPoll.step_some h] at hcursor
      rcases List.mem_append.mp hcursor with hnew | hold
      · obtain ⟨-, state, hstate⟩ := preparePoll_some (hs.mediaJobs hfits) h
        have hsome : encodeFeishuCursor state = some cursor :=
          hstate.symm.trans (Option.mem_toList.mp hnew)
        rw [← hsome]
        exact mediaJobs_decode_encode state
      · exact hs.issued cursor hold
    rcases drained_cases env options e prepared with
      ⟨hdrained, -⟩ | ⟨download, -, -, hdrained, htried⟩
    · rw [hdrained] at hjobs
      refine ⟨hjobs ▸ hnodup, fun job hjob => ?_, hissued⟩
      have hbefore := queue_tried hs hqueue (hjobs ▸ hjob)
      have hmono := @triesOf_mono env options e s job.messageId job.key
      omega
    · rw [hdrained] at hjobs
      refine ⟨hjobs ▸ nodup_remainingJobs hnodup, fun job' hjob' => ?_, hissued⟩
      obtain ⟨job, hjob, hkept⟩ := mem_remainingJobs.mp (hjobs ▸ hjob')
      have hbefore := queue_tried hs hqueue hjob
      split at hkept
      · next hdue =>
        -- A job that stays after a try counts that try.
        obtain ⟨hmessage, hkey, hattempts, -⟩ := retriedJob_some hkept
        have hcount := triesOf_due h htried hjob hdue
        rw [hmessage, hkey, hattempts]
        omega
      · obtain rfl : job = job' := Option.some.inj hkept
        have hmono := @triesOf_mono env options e s job.messageId job.key
        omega

/-! ## Attachments -/

/-- What is resolved stays resolved. -/
theorem resolved_step {messageId key : String} (hresolved : s.Resolved options messageId key) :
    (e.step env options s).Resolved options messageId key := by
  obtain ⟨record, hrecord, hrest⟩ := hresolved
  refine ⟨record, ?_, hrest⟩
  cases h : e.prepared env options s with
  | none =>
    rw [HostPoll.step_none h]
    exact hrecord
  | some prepared =>
    rw [HostPoll.step_some h]
    dsimp only
    split
    · exact List.mem_append_left _ hrecord
    · exact hrecord

/-- The message of a record is the one its external id names. -/
theorem externalId_inj {chatId left right : String}
    (h : chatId ++ ":" ++ left = chatId ++ ":" ++ right) : left = right := by
  have hlist := congrArg String.toList h
  simp only [String.toList_append] at hlist
  exact String.toList_inj.mp (List.append_cancel_left hlist)

/-- What a poll makes a reference of was one, or is on its page. -/
theorem referenced_step (h : e.prepared env options s = some prepared) {messageId key : String}
    (hreferenced : (e.step env options s).Referenced options messageId key) :
    e.Concerns options s prepared messageId key := by
  obtain ⟨record, hrecord, hcreate, hid, part, hpart, kind, hlocator⟩ := hreferenced
  rw [HostPoll.step_some h] at hrecord
  dsimp only at hrecord
  split at hrecord
  · next hcommitted =>
    rcases List.mem_append.mp hrecord with hold | hnew
    · exact .inl ⟨record, hold, hcreate, hid, part, hpart, kind, hlocator⟩
    · rcases List.mem_append.mp hnew with hpage | hdrain
      · obtain ⟨snapshot, hsnapshot, rfl⟩ := List.mem_map.mp hpage
        obtain ⟨ref, href, rfl⟩ := List.mem_map.mp hpart
        rw [pointerAttachment_locator] at hlocator
        exact .inr ⟨hcommitted, snapshot, hsnapshot, externalId_inj hid, ref, href,
          feishuMediaLocator_key (Option.some.inj hlocator)⟩
      · exfalso
        rcases drained_cases env options e prepared with
          ⟨hdrained, -⟩ | ⟨download, -, -, hdrained, -⟩
        · rw [hdrained] at hdrain
          cases hdrain
        · rw [hdrained] at hdrain
          rw [recordsFromDownloads_revise hdrain] at hcreate
          cases hcreate
  · exact .inl ⟨record, hrecord, hcreate, hid, part, hpart, kind, hlocator⟩

/-- An attachment that a poll concerns is settled before it, or in its queue. -/
theorem concerned_queued (hs : s.Consistent env) (hfits : e.Fits env options s)
    (hdelivers : e.Delivers env options s) (hsurvive : s.AttachmentsSurvive options)
    (h : e.prepared env options s = some prepared) {messageId key : String}
    (hconcerns : e.Concerns options s prepared messageId key) :
    s.Resolved options messageId key ∨ maxFeishuMediaAttempts ≤ s.triesOf messageId key ∨
      ∃ job ∈ prepared.queue, job.messageId = messageId ∧ job.key = key := by
  have hqueue := hostPoll_queue hfits (hs.mediaJobs hfits) h
  rcases hconcerns with hreferenced | ⟨hcommitted, snapshot, hsnapshot, rfl, ref, href, rfl⟩
  · rcases hsurvive messageId key hreferenced with hresolved | ⟨job, hjob, hnamed⟩ | htries
    · exact .inl hresolved
    · refine .inr (.inr ⟨job, ?_, hnamed⟩)
      rw [hqueue]
      exact (grown_queuedWith s.jobs prepared.snapshots).kept job hjob
    · exact .inr (.inl htries)
  · obtain ⟨job, hjob, hkey⟩ := queuedWith_queued hsnapshot href s.jobs
    rw [← hqueue] at hjob
    exact .inr (.inr ⟨job, hjob,
      hdelivers.own prepared h hcommitted snapshot hsnapshot ref href job hjob hkey⟩)

/-- The bytes that a committed drain brings are in a revision of their message. -/
theorem delivered_resolved {download : FeishuDownloadResource → Option FeishuDownloadedFile}
    (h : e.prepared env options s = some prepared)
    (hnodup : (prepared.queue.map (·.jobKey)).Nodup)
    (hdrained : prepared.drained env options e.answers =
      (recordsFromDownloads options
        (downloadedParts download prepared.queue (clockMs env e.answers))
        (dueJobs prepared.queue (clockMs env e.answers) ++
          remainingJobs download prepared.queue (clockMs env e.answers)),
        remainingJobs download prepared.queue (clockMs env e.answers)))
    {job : FeishuMediaJob} (hdue : job ∈ dueJobs prepared.queue (clockMs env e.answers))
    {part : ContentPart} (hpart : downloadMediaJob download job = some part)
    (hcommitted : e.committed = true)
    (hlisted : (((dueJobs prepared.queue (clockMs env e.answers)).find? fun first =>
      first.messageId = job.messageId).any fun first =>
        first.refs.any fun ref => ref.key = job.key) = true) :
    (e.step env options s).Resolved options job.messageId job.key := by
  obtain ⟨first, hfirst, hrefs⟩ := (Option.any_eq_true _ _).mp hlisted
  obtain ⟨ref, href, hkey⟩ := List.any_eq_true.mp hrefs
  have hkey : ref.key = job.key := of_decide_eq_true hkey
  have hmessage : first.messageId = job.messageId := by
    simpa using List.find?_some hfirst
  obtain ⟨hrefers, bytes, hbytes, hne⟩ := downloadMediaJob_some hpart
  have hget : mapGet (downloadedParts download prepared.queue (clockMs env e.answers))
      (mediaJobKey first.messageId ref.key) = some part := by
    rw [hmessage, hkey]
    exact mapGet_downloaded hnodup hdue hpart
  have hfound : ((dueJobs prepared.queue (clockMs env e.answers) ++
      remainingJobs download prepared.queue (clockMs env e.answers)).find? fun other =>
        other.messageId = job.messageId) = some first := by
    rw [List.find?_append, hfirst, Option.some_or]
  obtain ⟨hrecord, hmem⟩ :=
    @recordsFromDownloads_some options _ _ _ _ hfound _ href _ hget _ hbytes hne
  have hstored : recordFromSnapshot options first.toFeishuSnapshot
      (resolvedAttachments (downloadedParts download prepared.queue (clockMs env e.answers))
        first) .revise ∈ (e.step env options s).records := by
    rw [HostPoll.step_some h, hdrained]
    dsimp only
    rw [if_pos hcommitted]
    exact List.mem_append_right _ (List.mem_append_right _ hrecord)
  rw [← hmessage]
  exact ⟨_, hstored, rfl, rfl, part, hmem, hrefers, bytes, hbytes, hne⟩

theorem survive_step (hs : s.Consistent env) (hfits : e.Fits env options s)
    (hdelivers : e.Delivers env options s) (hsurvive : s.AttachmentsSurvive options) :
    (e.step env options s).AttachmentsSurvive options := by
  cases h : e.prepared env options s with
  | none =>
    rw [HostPoll.step_none h]
    exact hsurvive
  | some prepared =>
    intro messageId key hreferenced
    have hconcerns := referenced_step h hreferenced
    have hqueue := hostPoll_queue hfits (hs.mediaJobs hfits) h
    have hnodup := queue_nodup hs hqueue
    have hmono := @triesOf_mono env options e s messageId key
    rcases concerned_queued hs hfits hdelivers hsurvive h hconcerns with
      hresolved | htries | ⟨job, hjob, rfl, rfl⟩
    · exact .inl (resolved_step hresolved)
    · exact .inr (.inr (htries.trans hmono))
    · have hjobs : (e.step env options s).jobs =
          (prepared.drained env options e.answers).2 := by
        rw [HostPoll.step_some h]
      rcases drained_cases env options e prepared with
        ⟨hdrained, -⟩ | ⟨download, hdrains, hdownload, hdrained, htried⟩
      · rw [hdrained] at hjobs
        exact .inr (.inl ⟨job, hjobs ▸ hjob, rfl, rfl⟩)
      · rw [hdrained] at hjobs
        by_cases hany : ((dueJobs prepared.queue (clockMs env e.answers)).any
            fun due => due.jobKey = job.jobKey) = true
        · have hdue := (due_iff hnodup hjob).mp hany
          have hcount := triesOf_due h htried hjob hany
          have hattempts := queue_tried hs hqueue hjob
          cases hpart : downloadMediaJob download job with
          | some part =>
            rcases hdelivers.carried prepared download h hdrains hdownload job hdue
                (by rw [hpart]; rfl) hconcerns with
              hresolved | htries | ⟨hcommitted, hlisted⟩
            · exact .inl (resolved_step hresolved)
            · exact .inr (.inr (htries.trans hcount))
            · exact .inl (delivered_resolved h hnodup hdrained hdue hpart hcommitted hlisted)
          | none =>
            by_cases hlast : (maxFeishuMediaAttempts : Int) ≤ job.attempts + 1
            · refine .inr (.inr ?_)
              omega
            · refine .inr (.inl ?_)
              have hretried : retriedJob download (clockMs env e.answers) job = some { job with
                  attempts := job.attempts + 1
                  retryAfter := some (clockMs env e.answers +
                    mediaRetryBackoffMs (job.attempts + 1)) } := by
                rw [retriedJob, hpart]
                exact if_neg hlast
              rw [MediaRun.Queued, hjobs]
              exact ⟨_, mem_remainingJobs.mpr ⟨job, hjob, (if_pos hany).trans hretried⟩, rfl,
                rfl⟩
        · refine .inr (.inl ⟨job, ?_, rfl, rfl⟩)
          rw [hjobs]
          exact mem_remainingJobs.mpr ⟨job, hjob, if_neg hany⟩

end Step

/-! ## Runs -/

section Runs

variable (env : FeishuEnv) (options : FeishuChatPollConnectorOptions)

/-- Where the host commits every page that brings bytes for an attachment of a committed message,
and the revision lists it, no attachment is lost, whatever else fails. -/
theorem attachments_survive (events : List HostPoll)
    (hfits : Along (HostPoll.step env options) (fun s e => e.Fits env options s) {} events)
    (hdelivers : Along (HostPoll.step env options) (fun s e => e.Delivers env options s) {}
      events) :
    (run (HostPoll.step env options) {} events).AttachmentsSurvive options := by
  have hstart : ({} : MediaRun).Consistent env ∧ ({} : MediaRun).AttachmentsSurvive options := by
    refine ⟨consistent_start env, ?_⟩
    rintro messageId key ⟨record, hrecord, -⟩
    cases hrecord
  have hboth := along_and (HostPoll.step env options) {} events hfits hdelivers
  refine (along_invariant (HostPoll.step env options)
    (fun s => s.Consistent env ∧ s.AttachmentsSurvive options) ?_ {} hstart events hboth).2
  rintro s e ⟨hconsistent, hsurvive⟩ ⟨hstep, hdelivered⟩
  exact ⟨consistent_step hconsistent hstep,
    survive_step hconsistent hstep hdelivered hsurvive⟩

end Runs

/-! ### A page that is not committed -/

theorem fits_iff {env : FeishuEnv} {options : FeishuChatPollConnectorOptions} {s : MediaRun}
    {e : HostPoll} :
    e.Fits env options s ↔ (∀ cursor ∈ e.cursor, cursor ∈ s.issued) ∧
      ((e.prepared env options s).all fun prepared =>
        (queuedWith s.jobs prepared.snapshots).length ≤ maxFeishuMediaJobs) = true := by
  constructor
  · rintro ⟨hcursor, houtstanding⟩
    refine ⟨hcursor, (Option.all_eq_true _ _).mpr fun prepared h => ?_⟩
    exact decide_eq_true (houtstanding prepared h)
  · rintro ⟨hcursor, houtstanding⟩
    refine ⟨hcursor, fun prepared h => ?_⟩
    exact of_decide_eq_true ((Option.all_eq_true _ _).mp houtstanding prepared h)

instance decidableFits (env : FeishuEnv) (options : FeishuChatPollConnectorOptions)
    (s : MediaRun) (e : HostPoll) : Decidable (e.Fits env options s) :=
  decidable_of_iff _ fits_iff.symm

/-- What the host can see to: it commits what it drains, and keys do not collide. -/
theorem delivers_of_committed {env : FeishuEnv} {options : FeishuChatPollConnectorOptions}
    {s : MediaRun} {e : HostPoll}
    (h : ((e.prepared env options s).all fun prepared =>
      (prepared.snapshots.all fun snapshot => snapshot.refs.all fun ref =>
        prepared.queue.all fun job =>
          job.jobKey = mediaJobKey snapshot.messageId ref.key →
            job.messageId = snapshot.messageId ∧ job.key = ref.key) &&
      (!prepared.drains || e.committed &&
        (dueJobs prepared.queue (clockMs env e.answers)).all fun job =>
          ((dueJobs prepared.queue (clockMs env e.answers)).find? fun first =>
            first.messageId = job.messageId).any fun first =>
              first.refs.any fun ref => ref.key = job.key)) = true) :
    e.Delivers env options s where
  own prepared hprepared _ snapshot hsnapshot ref href job hjob := by
    have hchecked := (Option.all_eq_true _ _).mp h prepared hprepared
    have hsnapshots := List.all_eq_true.mp (Bool.and_eq_true_iff.mp hchecked).1 snapshot hsnapshot
    have hjobs := List.all_eq_true.mp hsnapshots ref href
    exact of_decide_eq_true (List.all_eq_true.mp hjobs job hjob)
  carried prepared _ hprepared hdrains _ job hjob _ _ := by
    have hchecked := (Option.all_eq_true _ _).mp h prepared hprepared
    have hdrained := (Bool.and_eq_true_iff.mp hchecked).2
    rw [hdrains, Bool.not_true, Bool.false_or, Bool.and_eq_true_iff] at hdrained
    exact .inr (.inr ⟨hdrained.1, List.all_eq_true.mp hdrained.2 job hjob⟩)

/-- A chat with one image, which one poll lists and the next one downloads. -/
def imageItem : FeishuHistoryItem where
  messageId := "m"
  msgType := "image"
  createTime := some "2"
  sender := some { id := some "u", senderType := some "user" }

def imageEnv : FeishuEnv where
  number := decimalNumber
  dateParse _ := none
  toIso _ := "t"
  sha256 _ := "h"
  extractFeishuText _ _ := none
  extractFeishuMedia _ := [{ kind := .image, key := "k" }]
  feishuMentionNames _ := []

def imageChat : FeishuChatPollConnectorOptions where
  connectorId := "f"
  orgId := "o"
  chatId := "c"
  pageSize := 20

def imageAnswers : FeishuAnswers where
  listMessages _ := some { items := [imageItem] }
  resolveNames _ := some []
  downloadResource := some fun _ => some { bytes := [1] }
  now := "t"
  clock := 0

/-- The poll that lists the image, with its downloads left for later. -/
def listingPoll : HostPoll where
  poll := { media := some false }
  answers := imageAnswers
  committed := true

def listedState : FeishuCursorState :=
  { startTime := some "2", recentSeeded := true }

/-- The poll that downloads it, with the cursor that the listing returned. -/
def downloadPoll (committed : Bool) : HostPoll where
  cursor := encodeFeishuCursor listedState
  poll := { media := some true }
  answers := imageAnswers
  committed := committed

theorem attachments_survive_image :
    (run (HostPoll.step imageEnv imageChat) {} [listingPoll, downloadPoll true]).AttachmentsSurvive
      imageChat := by
  apply attachments_survive imageEnv imageChat
  · decide +kernel
  · refine ⟨delivers_of_committed ?_, delivers_of_committed ?_, trivial⟩
    · decide +kernel
    · decide +kernel

/-- The bytes came in a page that the host did not commit: the job is gone after one try, and no
record carries the bytes. -/
theorem attachments_lost_uncommitted :
    Along (HostPoll.step imageEnv imageChat) (fun s e => e.Fits imageEnv imageChat s) {}
        [listingPoll, downloadPoll false] ∧
      ¬(run (HostPoll.step imageEnv imageChat) {}
        [listingPoll, downloadPoll false]).AttachmentsSurvive imageChat := by
  refine ⟨by decide +kernel, fun hsurvive => ?_⟩
  have hlisted : ((run (HostPoll.step imageEnv imageChat) {}
      [listingPoll, downloadPoll false]).records.any fun record =>
        record.operation = .create && record.externalId = "c" ++ ":" ++ "m" &&
          record.content.any fun part =>
            part.externalLocator? = some (feishuMediaLocator .image "k")) = true := by
    decide +kernel
  have hcreates : ((run (HostPoll.step imageEnv imageChat) {}
      [listingPoll, downloadPoll false]).records.all fun record =>
        record.operation ≠ .revise) = true := by
    decide +kernel
  have hjobs : (run (HostPoll.step imageEnv imageChat) {}
      [listingPoll, downloadPoll false]).jobs = [] := by
    decide +kernel
  have htries : (run (HostPoll.step imageEnv imageChat) {}
      [listingPoll, downloadPoll false]).triesOf "m" "k" = 1 := by
    decide +kernel
  obtain ⟨record, hrecord, hnamed⟩ := List.any_eq_true.mp hlisted
  simp only [Bool.and_eq_true, decide_eq_true_eq, List.any_eq_true] at hnamed
  obtain ⟨⟨hcreate, hid⟩, part, hpart, hlocator⟩ := hnamed
  rcases hsurvive "m" "k" ⟨record, hrecord, hcreate, hid, part, hpart, .image, hlocator⟩ with
    ⟨other, hother, hrevise, -⟩ | ⟨job, hjob, -⟩ | hgiven
  · exact absurd hrevise (of_decide_eq_true (List.all_eq_true.mp hcreates other hother))
  · rw [hjobs] at hjob
    cases hjob
  · rw [htries] at hgiven
    exact absurd hgiven (by decide)

end Regenic.Feishu
