import Regenic.Feishu.Cursor

/-!
The attachment downloads of a Feishu chat: the jobs that a page queues, the downloads of one poll
and the records that carry what was downloaded.
-/

namespace Regenic.Feishu

open Lib Ingest

def maxFeishuAttachmentBytes : Nat := 8 * 1024 * 1024

def maxFeishuMediaJobs : Nat := 40

def maxFeishuMediaAttempts : Nat := 5

def maxFeishuMediaJobsPerPoll : Nat := 8

structure FeishuDownloadResource where
  messageId : String
  fileKey : String
  type : FeishuMediaKind
  deriving DecidableEq, Repr

structure FeishuDownloadedFile where
  bytes : Bytes
  mediaType : Option String := none
  filename : Option String := none
  deriving DecidableEq, Repr

/-- The key of a job or of a reference. -/
def mediaJobKey (messageId key : String) : String := messageId ++ ":" ++ key

def FeishuMediaJob.jobKey (job : FeishuMediaJob) : String := mediaJobKey job.messageId job.key

def isDueMediaJob (nowMs : ℚ) (job : FeishuMediaJob) : Bool :=
  job.attempts < maxFeishuMediaAttempts && job.retryAfter.getD 0 ≤ nowMs

def hasDueMediaJobs (jobs : List FeishuMediaJob) (nowMs : ℚ) : Bool :=
  jobs.any (isDueMediaJob nowMs)

def mediaRetryBackoffMs (attempts : Int) : ℚ := min 60000 (1000 * 4 ^ (attempts - 1).toNat)

/-! ## Queueing -/

def FeishuSnapshot.job (snapshot : FeishuSnapshot) (ref : FeishuMediaRef) : FeishuMediaJob where
  toFeishuSnapshot := snapshot
  key := ref.key
  kind := ref.kind
  filename := ref.filename
  mediaType := ref.mediaType
  attempts := 0

/-- A reference whose key is queued already is not queued again. -/
def enqueueRef (snapshot : FeishuSnapshot) (jobs : List FeishuMediaJob) (ref : FeishuMediaRef) :
    List FeishuMediaJob :=
  if jobs.any fun job => job.jobKey = mediaJobKey snapshot.messageId ref.key then jobs
  else jobs ++ [snapshot.job ref]

def enqueueSnapshot (jobs : List FeishuMediaJob) (snapshot : FeishuSnapshot) :
    List FeishuMediaJob :=
  snapshot.refs.foldl (enqueueRef snapshot) jobs

/-- The queue with the references of the page, before the oldest jobs over the bound go. -/
def queuedWith (current : List FeishuMediaJob) (snapshots : List FeishuSnapshot) :
    List FeishuMediaJob :=
  snapshots.foldl enqueueSnapshot current

def enqueueFromItems (current : List FeishuMediaJob) (snapshots : List FeishuSnapshot) :
    List FeishuMediaJob :=
  let jobs := queuedWith current snapshots
  jobs.drop (jobs.length - maxFeishuMediaJobs)

/-- Jobs that an older cursor carried join those in the store, one job a message. -/
def hydrateMediaJobs (stored legacy : List FeishuMediaJob) : List FeishuMediaJob :=
  if legacy = [] then stored
  else
    let kept := (keepFirst (·.messageId) stored).map fun job =>
      ((stored.reverse.find? fun other => other.messageId = job.messageId).getD job)
    kept ++ keepFirst (·.messageId)
      (legacy.filter fun job => !stored.any fun other => other.messageId = job.messageId)

/-! ## Downloading -/

section Downloads

variable (download : FeishuDownloadResource → Option FeishuDownloadedFile)

/-- The bytes of an attachment, none where the download failed or brought none of use. -/
def downloadMediaJob (job : FeishuMediaJob) : Option ContentPart := do
  let file ← download { messageId := job.messageId, fileKey := job.key, type := job.kind }
  if file.bytes = [] ∨ maxFeishuAttachmentBytes < file.bytes.length ∨
      isLikelyJsonDocument file.bytes then none
  else
    let fallback := match job.kind with
      | .image => "image/png"
      | .file => "application/octet-stream"
    some {
      role := .attachment
      mediaType := sniffMediaType file.bytes
        ((present file.mediaType <|> present job.mediaType).getD fallback)
      sourceFilename := some ((file.filename <|> job.filename).getD
        (match job.kind with
          | .image => "image.png"
          | .file => "attachment"))
      content := .bytes file.bytes (some (feishuMediaLocator job.kind job.key)) }

/-- The jobs that this poll tries. -/
def dueJobs (jobs : List FeishuMediaJob) (nowMs : ℚ) : List FeishuMediaJob :=
  (jobs.filter (isDueMediaJob nowMs)).take maxFeishuMediaJobsPerPoll

def triedJobs (jobs : List FeishuMediaJob) (nowMs : ℚ) : List FeishuMediaJob :=
  jobs.filter fun job => (dueJobs jobs nowMs).any fun due => due.jobKey = job.jobKey

/-- The job after a try: gone with its bytes or after its last try, else with one try more. -/
def retriedJob (nowMs : ℚ) (job : FeishuMediaJob) : Option FeishuMediaJob :=
  match downloadMediaJob download job with
  | some _ => none
  | none =>
    if maxFeishuMediaAttempts ≤ job.attempts + 1 then none
    else some { job with
      attempts := job.attempts + 1
      retryAfter := some (nowMs + mediaRetryBackoffMs (job.attempts + 1)) }

def remainingJobs (jobs : List FeishuMediaJob) (nowMs : ℚ) : List FeishuMediaJob :=
  jobs.filterMap fun job =>
    if (dueJobs jobs nowMs).any fun due => due.jobKey = job.jobKey then
      retriedJob download nowMs job
    else some job

def downloadedParts (jobs : List FeishuMediaJob) (nowMs : ℚ) : List (String × ContentPart) :=
  (triedJobs jobs nowMs).filterMap fun job =>
    (downloadMediaJob download job).map fun part => (job.jobKey, part)

end Downloads

/-- `Map.get`, of a map that was set in this order. -/
def mapGet {α : Type} (entries : List (String × α)) (key : String) : Option α :=
  (entries.reverse.find? fun entry => entry.1 = key).map (·.2)

def recordFromSnapshot (options : FeishuChatPollConnectorOptions) (snapshot : FeishuSnapshot)
    (attachments : List ContentPart) (operation : IngestOperation) : ChannelRecord where
  operation := operation
  externalId := options.chatId ++ ":" ++ snapshot.messageId
  occurredAt := snapshot.occurredAt
  actorId := snapshot.actorId
  actorLabel := snapshot.actorLabel
  kind := snapshot.senderKind
  direction := snapshot.direction
  scopeId := options.chatId
  scopeName := options.chatName
  conversationKind := feishuConversationKind options.chatMode
  type := snapshot.type
  parentExternalId := snapshot.parentExternalId
  text := snapshot.text
  content := attachments

/-- The attachments of a message: the bytes that came, pointers for the rest. -/
def resolvedAttachments (downloaded : List (String × ContentPart)) (job : FeishuMediaJob) :
    List ContentPart :=
  job.refs.map fun ref =>
    (mapGet downloaded (mediaJobKey job.messageId ref.key)).getD (pointerAttachment ref)

/-- One revision a message, made of the first of its jobs. -/
def recordsFromDownloads (options : FeishuChatPollConnectorOptions)
    (downloaded : List (String × ContentPart)) (jobs : List FeishuMediaJob) :
    List ChannelRecord :=
  if downloaded = [] then []
  else
    (keepFirst (·.messageId) jobs).filterMap fun job =>
      let attachments := resolvedAttachments downloaded job
      if attachments.any fun part => part.bytes?.any (· ≠ []) then
        some (recordFromSnapshot options job.toFeishuSnapshot attachments .revise)
      else none

/-- A client that cannot download leaves the queue alone. -/
def drainMediaJobs (options : FeishuChatPollConnectorOptions)
    (download : Option (FeishuDownloadResource → Option FeishuDownloadedFile))
    (jobs : List FeishuMediaJob) (nowMs : ℚ) : List ChannelRecord × List FeishuMediaJob :=
  match download with
  | none => ([], jobs)
  | some download =>
    if dueJobs jobs nowMs = [] then ([], jobs)
    else
      let remaining := remainingJobs download jobs nowMs
      (recordsFromDownloads options (downloadedParts download jobs nowMs)
        (dueJobs jobs nowMs ++ remaining), remaining)

end Regenic.Feishu
