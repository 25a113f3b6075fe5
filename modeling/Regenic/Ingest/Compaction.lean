import Regenic.Ingest.Canonical
import Regenic.Ingest.Writes

/-!
Compaction of stored envelopes whose parts carry their bytes inside. Each part becomes a
content part by the first branch that fits it, the parts are made canonical again, the events
are pointed at the new content and the old envelope is deleted. A part that carries a second
payload beside the branch that is taken loses it.
-/

namespace Regenic.Ingest

open Lib

variable (sha256 : Sha256)

/-- What ends a run: a `null` among the parts of an envelope, or a part that only points
elsewhere where content has to be written. -/
inductive CompactFailure where
  | nullPart
  | contentUnavailable
  deriving DecidableEq, Repr

/-! ## Parts -/

def contentRole? (name : String) : Option ContentPartRole :=
  if name = "body" then some .body
  else if name = "attachment" then some .attachment
  else if name = "transcript" then some .transcript
  else if name = "metadata" then some .metadata
  else none

def storedPartBytes (part : StoredContentPart) : Option Bytes :=
  (present part.bytesBase64).map base64Decode

/-- `parts.some`, which stops at the first part with embedded bytes. -/
def envelopeHasEmbeddedBytes : List (Option StoredContentPart) → Except CompactFailure Bool
  | [] => .ok false
  | none :: _ => .error .nullPart
  | some part :: rest =>
    if part.bytesBase64.isSome then .ok true else envelopeHasEmbeddedBytes rest

/-- The first branch that fits a part: its text, its bytes, its locator. -/
def partContent (role : ContentPartRole) (part : StoredContentPart) : Option PartContent :=
  match (storedPartText part).filter fun _ => role ≠ .attachment with
  | some text => some (.text text)
  | none =>
    match storedPartBytes part with
    | some bytes => some (.bytes bytes)
    | none => (present part.externalLocator).map .pointer

def partToContent (part : StoredContentPart) : Option ContentPart := do
  let role ← part.role.bind contentRole?
  let mediaType ← present part.mediaType
  let content ← partContent role part
  return { role, mediaType, sourceFilename := present part.sourceFilename, content }

def partsToContent : List (Option StoredContentPart) →
    Except CompactFailure (Option (List ContentPart))
  | [] => .ok (some [])
  | none :: _ => .error .nullPart
  | some part :: rest =>
    match partToContent part with
    | none => .ok none
    | some content => do
      let more ← partsToContent rest
      return more.map (content :: ·)

/-! ## The stores -/

structure RepointContentInput where
  oldContentHash : String
  newContentHash : String
  contentMediaType : String
  contentByteSize : Nat
  extraBlobs : List BlobMetaInput := []
  deriving DecidableEq, Repr

namespace AuthorityTables

/-- The rows of the new content and of its sidecars. -/
def registerContent (db : AuthorityTables) (input : RepointContentInput) : AuthorityTables :=
  input.extraBlobs.foldl insertBlobMeta
    (db.insertBlobRow input.newContentHash (some input.contentMediaType)
      (some input.contentByteSize))

/-- Point every event at the new content; the row of the old one goes unless an event still
names it. -/
def repointContentHash (db : AuthorityTables) (input : RepointContentInput) :
    AuthorityTables × Nat :=
  let registered := db.registerContent input
  let events := registered.events.updateWhere
    (fun event => event.contentHash = some input.oldContentHash)
    (fun event => { event with contentHash := some input.newContentHash }) (fun _ => rfl)
  let blobs :=
    if input.oldContentHash = input.newContentHash then registered.blobs
    else registered.blobs.filter fun row =>
      !(row.contentHash = input.oldContentHash &&
        !events.rows.any fun event => event.contentHash = some input.oldContentHash)
  ({ registered with events, blobs },
    db.events.rows.countP fun event => event.contentHash = some input.oldContentHash)

theorem registerContent_registersOnly (db : AuthorityTables) (input : RepointContentInput) :
    RegistersOnly db (db.registerContent input) :=
  (insertBlobRow_registersOnly db _ _ _).trans (foldl_insertBlobMeta_registersOnly _ _)

theorem repointContentHash_events (db : AuthorityTables) (input : RepointContentInput) :
    (db.repointContentHash input).1.events.rows =
      db.events.rows.map fun event =>
        if event.contentHash = some input.oldContentHash then
          { event with contentHash := some input.newContentHash }
        else event := by
  unfold repointContentHash
  simp only [Table.rows_updateWhere, (registerContent_registersOnly db input).events,
    decide_eq_true_eq]

/-- The row of another content stays as it is. -/
theorem repointContentHash_row {db : AuthorityTables} {input : RepointContentInput}
    {hash : String} {row : BlobRecord} (hrow : db.blobs.get? hash = some row)
    (hother : hash ≠ input.oldContentHash) :
    (db.repointContentHash input).1.blobs.get? hash = some row := by
  have hregistered := (registerContent_registersOnly db input).blobs hash row hrow
  have hkey : row.contentHash = hash := (Table.get?_eq_some.mp hrow).2
  unfold repointContentHash
  simp only
  split
  · exact hregistered
  · rw [Table.get?_filter, hregistered, Option.filter_some]
    simp [hkey, hother]

/-- The new content is registered. -/
theorem repointContentHash_new (db : AuthorityTables) {input : RepointContentInput}
    (hmoved : input.newContentHash ≠ input.oldContentHash) :
    ((db.repointContentHash input).1.blobs.get? input.newContentHash).isSome = true := by
  have hnew : ((db.insertBlobRow input.newContentHash (some input.contentMediaType)
      (some input.contentByteSize)).blobs.get? input.newContentHash).isSome = true := by
    rw [get?_insertBlobRow, if_pos rfl]
    cases db.blobs.get? input.newContentHash <;> rfl
  obtain ⟨row, hrow⟩ := Option.isSome_iff_exists.mp hnew
  have hregistered : (db.registerContent input).blobs.get? input.newContentHash = some row :=
    (foldl_insertBlobMeta_registersOnly _ _).blobs _ _ hrow
  have hkey : row.contentHash = input.newContentHash := (Table.get?_eq_some.mp hrow).2
  unfold repointContentHash
  simp only [if_neg (Ne.symm hmoved)]
  rw [Table.get?_filter, hregistered, Option.filter_some]
  simp [hkey, hmoved]

end AuthorityTables

def Stores.deleteBlob (s : Stores) (hash : String) : Stores :=
  { s with blobs := s.blobs.filter fun blob => blob.hash ≠ hash }

/-- Write the new content, point the events at it, delete the old envelope. -/
def Stores.replaceContent (s : Stores) (hash : String) (canonical : CanonicalContent) : Stores :=
  let written := s.putBlobs (blobsForCanonical canonical)
  let repointed := written.authority.repointContentHash
    { oldContentHash := hash
      newContentHash := canonical.hash
      contentMediaType := canonical.mediaType
      contentByteSize := canonical.bytes.length
      extraBlobs := extraBlobsForCanonical canonical }
  { written with authority := repointed.1 }.deleteBlob hash

/-! ## The run -/

/-- An envelope that was rewritten, with the stores before and after. -/
structure Rewrite where
  hash : String
  oldBytes : Bytes
  entries : List (Option StoredContentPart)
  content : List ContentPart
  canonical : CanonicalContent
  before : Stores
  after : Stores

def Rewrite.releasedBytes (r : Rewrite) : Nat :=
  r.oldBytes.length - r.canonical.bytes.length -
    (r.canonical.blobs.map fun blob => blob.bytes.length).sum

inductive Visit where
  | skipped
  | failed
  | rewritten (rewrite : Rewrite)

def visitParts (s : Stores) (hash : String) (bytes : Bytes)
    (entries : List (Option StoredContentPart)) : Except CompactFailure Visit := do
  if ← envelopeHasEmbeddedBytes entries then
    match ← partsToContent entries with
    | none => return .failed
    | some content =>
      match canonicalizeContent sha256 content with
      | none => throw .contentUnavailable
      | some canonical =>
        if canonical.hash = hash then return .skipped
        else
          return .rewritten
            { hash, oldBytes := bytes, entries, content, canonical, before := s
              after := s.replaceContent hash canonical }
  else return .skipped

def visitHash (metas : String → Option BlobRecord) (s : Stores) (hash : String) :
    Except CompactFailure Visit :=
  match (metas hash).filter fun row => row.mediaType = contentPartsMediaType with
  | none => .ok .skipped
  | some _ =>
    match s.blobs.get? hash with
    | none => .ok .failed
    | some blob =>
      match parseStoredContentParts blob.bytes with
      | none => .ok .skipped
      | some entries => visitParts sha256 s hash blob.bytes entries

/-- How far a run has come, with the rewrites it counts. -/
structure CompactRun where
  stores : Stores
  failed : Nat := 0
  rewrites : List Rewrite := []

def CompactRun.note (run : CompactRun) : Visit → CompactRun
  | .skipped => run
  | .failed => { run with failed := run.failed + 1 }
  | .rewritten rewrite =>
    { run with stores := rewrite.after, rewrites := run.rewrites ++ [rewrite] }

/-- Whether the caller stops the run before the hash at an index. Every eighth hash is
checked again after the event loop had its turn. -/
def stopsBefore (stops : Nat → Bool → Bool) (index : Nat) : Bool :=
  stops index false || (0 < index && index % 8 = 0 && stops index true)

def compactHashes (metas : String → Option BlobRecord) (stops : Nat → Bool → Bool) :
    Nat → List String → CompactRun → CompactRun × Except CompactFailure Bool
  | _, [], run => (run, .ok false)
  | index, hash :: rest, run =>
    if stopsBefore stops index then (run, .ok true)
    else
      match visitHash sha256 metas run.stores hash with
      | .error failure => (run, .error failure)
      | .ok visit => compactHashes metas stops (index + 1) rest (run.note visit)

structure ContentCompactResult where
  scanned : Nat
  rewritten : Nat
  failed : Nat
  releasedBytes : Nat
  paused : Bool
  deriving DecidableEq, Repr

def contentHashes (s : Stores) (orgId : String) : List String :=
  keepFirst id ((s.authority.events.rows.filter (·.orgId = orgId)).filterMap fun event =>
    present event.contentHash)

/-- The run, and the result it returns unless it throws. -/
def compactEmbeddedContent (s : Stores) (orgId : String) (stops : Nat → Bool → Bool) :
    CompactRun × Except CompactFailure ContentCompactResult :=
  let hashes := contentHashes s orgId
  let (run, ending) := compactHashes sha256 s.authority.findBlob stops 0 hashes { stores := s }
  (run, ending.map fun paused =>
    { scanned := hashes.length
      rewritten := run.rewrites.length
      failed := run.failed
      releasedBytes := (run.rewrites.map Rewrite.releasedBytes).sum
      paused })

/-! ## Sound stores -/

/-- Stored bytes stand under their digest, and the content of every event is registered. -/
structure Stores.Addressed (s : Stores) : Prop where
  digest : ∀ blob ∈ s.blobs.rows, blob.hash = sha256.hex blob.bytes
  registered : ∀ event ∈ s.authority.events.rows, ∀ own, event.contentHash = some own →
    (s.authority.blobs.get? own).isSome = true

/-- The contents a rewrite reads and writes. -/
def Rewrite.contents (r : Rewrite) : List Bytes :=
  r.before.blobs.rows.map (·.bytes) ++
    r.canonical.bytes :: r.content.filterMap canonicalizePart

/-! ## Inversion -/

theorem partsToContent_ok {entries : List (Option StoredContentPart)}
    {content : List ContentPart} (h : partsToContent entries = .ok (some content)) :
    List.Forall₂ (fun entry content => ∃ part, entry = some part ∧
      partToContent part = some content) entries content := by
  induction entries generalizing content with
  | nil =>
    cases h
    exact .nil
  | cons entry rest ih =>
    cases entry with
    | none => cases h
    | some part =>
      unfold partsToContent at h
      cases hpart : partToContent part with
      | none =>
        rw [hpart] at h
        cases h
      | some first =>
        rw [hpart] at h
        cases hrest : partsToContent rest with
        | error failure =>
          rw [hrest] at h
          cases h
        | ok more =>
          rw [hrest] at h
          cases more with
          | none => cases h
          | some later =>
            cases h
            exact .cons ⟨part, rfl, hpart⟩ (ih hrest)

/-- What was done where an envelope was rewritten. -/
structure Rewritten (s : Stores) (hash : String) (r : Rewrite) : Prop where
  old : r.hash = hash
  before : r.before = s
  stored : ∃ blob, s.blobs.get? hash = some blob
  converted : partsToContent r.entries = .ok (some r.content)
  canonical : canonicalizeContent sha256 r.content = some r.canonical
  moved : r.canonical.hash ≠ hash
  after : r.after = s.replaceContent hash r.canonical

theorem visitHash_rewritten {metas : String → Option BlobRecord} {s : Stores} {hash : String}
    {r : Rewrite} (h : visitHash sha256 metas s hash = .ok (.rewritten r)) :
    Rewritten sha256 s hash r := by
  unfold visitHash at h
  split at h
  · cases h
  · cases hblob : s.blobs.get? hash with
    | none =>
      rw [hblob] at h
      cases h
    | some blob =>
      rw [hblob] at h
      simp only at h
      cases hparse : parseStoredContentParts blob.bytes with
      | none =>
        rw [hparse] at h
        cases h
      | some entries =>
        rw [hparse] at h
        simp only [visitParts] at h
        cases hembedded : envelopeHasEmbeddedBytes entries with
        | error failure =>
          rw [hembedded] at h
          cases h
        | ok embedded =>
          rw [hembedded] at h
          cases embedded with
          | false => cases h
          | true =>
            cases hcontent : partsToContent entries with
            | error failure =>
              rw [hcontent] at h
              cases h
            | ok converted =>
              rw [hcontent] at h
              cases converted with
              | none => cases h
              | some content =>
                simp only [bind, Except.bind, if_true] at h
                cases hcanonical : canonicalizeContent sha256 content with
                | none =>
                  rw [hcanonical] at h
                  cases h
                | some canonical =>
                  rw [hcanonical] at h
                  by_cases hsame : canonical.hash = hash
                  · simp only [if_pos hsame] at h
                    cases h
                  · simp only [if_neg hsame] at h
                    cases h
                    exact ⟨rfl, rfl, ⟨blob, hblob⟩, hcontent, hcanonical, hsame, rfl⟩

/-! ## The stores after a rewrite -/

theorem get?_foldl_putBlob (items : List BlobObject) (s : Stores) (hash : String) :
    (items.foldl Stores.putBlob s).blobs.get? hash =
      (s.blobs.get? hash <|> items.find? fun item => item.hash = hash) := by
  induction items generalizing s with
  | nil => simp
  | cons item rest ih =>
    rw [List.foldl_cons, ih, get?_putBlob]
    by_cases hitem : item.hash = hash
    · cases s.blobs.get? hash <;> simp [hitem]
    · cases s.blobs.get? hash <;> simp [hitem]

theorem get?_putBlobs (s : Stores) (items : List BlobObject) (hash : String) :
    (s.putBlobs items).blobs.get? hash =
      (s.blobs.get? hash <|> items.find? fun item => item.hash = hash) := by
  unfold Stores.putBlobs
  rw [get?_foldl_putBlob, find?_keepFirst]

theorem get?_replaceContent (s : Stores) (old : String) (canonical : CanonicalContent)
    (hash : String) :
    (s.replaceContent old canonical).blobs.get? hash =
      if hash = old then none
      else (s.blobs.get? hash <|>
        (blobsForCanonical canonical).find? fun item => item.hash = hash) := by
  unfold Stores.replaceContent Stores.deleteBlob
  simp only [Table.get?_filter, get?_putBlobs]
  generalize hfound : (s.blobs.get? hash <|>
    (blobsForCanonical canonical).find? fun item => item.hash = hash) = found
  cases found with
  | none => simp
  | some blob =>
    have hhash : blob.hash = hash := by
      cases hget : s.blobs.get? hash with
      | some stored =>
        rw [hget] at hfound
        cases hfound
        exact (Table.get?_eq_some.mp hget).2
      | none =>
        rw [hget] at hfound
        have hitem : ((blobsForCanonical canonical).find? fun item => item.hash = hash) =
            some blob := by simpa using hfound
        simpa using List.find?_some hitem
    by_cases hold : hash = old
    · simp [hhash, hold]
    · simp [hhash, hold]

theorem replaceContent_events (s : Stores) (old : String) (canonical : CanonicalContent) :
    (s.replaceContent old canonical).authority.events.rows =
      s.authority.events.rows.map fun event =>
        if event.contentHash = some old then
          { event with contentHash := some canonical.hash }
        else event := by
  unfold Stores.replaceContent Stores.deleteBlob
  simp only [AuthorityTables.repointContentHash_events, putBlobs_authority]

theorem replaceContent_row {s : Stores} {old : String} {canonical : CanonicalContent}
    {hash : String} {row : BlobRecord} (hrow : s.authority.blobs.get? hash = some row)
    (hother : hash ≠ old) :
    (s.replaceContent old canonical).authority.blobs.get? hash = some row := by
  unfold Stores.replaceContent Stores.deleteBlob
  simp only [putBlobs_authority]
  exact AuthorityTables.repointContentHash_row hrow hother

theorem replaceContent_new (s : Stores) {old : String} {canonical : CanonicalContent}
    (hmoved : canonical.hash ≠ old) :
    ((s.replaceContent old canonical).authority.blobs.get? canonical.hash).isSome = true := by
  unfold Stores.replaceContent Stores.deleteBlob
  exact AuthorityTables.repointContentHash_new _ hmoved

/-! ## What is written -/

theorem canonicalizePart_eq {part : ContentPart} {bytes : Bytes}
    (h : canonicalizePart part = some bytes) : bytes = contentBytes part := by
  unfold canonicalizePart at h
  unfold contentBytes
  cases hcontent : part.content with
  | text text =>
    rw [hcontent] at h
    exact (Option.some.inj h).symm
  | bytes bytes' locator =>
    rw [hcontent] at h
    exact (Option.some.inj h).symm
  | pointer locator =>
    rw [hcontent] at h
    cases h

theorem canonicalizeContent_hash {parts : List ContentPart} {canonical : CanonicalContent}
    (h : canonicalizeContent sha256 parts = some canonical) :
    canonical.hash = sha256.hex canonical.bytes := by
  cases hraw : isRaw parts with
  | true =>
    match parts with
    | [] => cases h
    | [part] =>
      simp only [isRaw] at hraw
      simp only [canonicalizeContent, if_pos hraw] at h
      obtain ⟨bytes, -, hout⟩ := Option.map_eq_some_iff.mp h
      cases hout
      rfl
    | _ :: _ :: _ => simp [isRaw] at hraw
  | false =>
    have henvelope := canonicalizeContent_of_not_raw sha256 h hraw
    obtain ⟨⟨records, blobs⟩, -, hout⟩ := Option.map_eq_some_iff.mp henvelope
    cases hout
    rfl

theorem canonicalizeContent_raw_blobs {parts : List ContentPart} {canonical : CanonicalContent}
    (h : canonicalizeContent sha256 parts = some canonical) (hraw : isRaw parts = true) :
    canonical.blobs = [] := by
  match parts with
  | [] => cases h
  | [part] =>
    simp only [isRaw] at hraw
    simp only [canonicalizeContent, if_pos hraw] at h
    obtain ⟨bytes, -, hout⟩ := Option.map_eq_some_iff.mp h
    cases hout
    rfl
  | _ :: _ :: _ => simp [isRaw] at hraw

/-- Everything that is written stands under its digest, and is the canonical content or the
bytes of a part. -/
theorem blobsForCanonical_digest {parts : List ContentPart} {canonical : CanonicalContent}
    (h : canonicalizeContent sha256 parts = some canonical) :
    ∀ item ∈ blobsForCanonical canonical, item.hash = sha256.hex item.bytes ∧
      item.bytes ∈ canonical.bytes :: parts.filterMap canonicalizePart := by
  intro item hitem
  rcases List.mem_cons.mp hitem with rfl | hsidecar
  · exact ⟨canonicalizeContent_hash sha256 h, List.mem_cons_self⟩
  · cases hraw : isRaw parts with
    | true =>
      rw [canonicalizeContent_raw_blobs sha256 h hraw] at hsidecar
      cases hsidecar
    | false =>
      have henvelope := canonicalizeContent_of_not_raw sha256 h hraw
      obtain ⟨⟨records, blobs⟩, hencoded, hout⟩ := Option.map_eq_some_iff.mp henvelope
      cases hout
      have hblob := encodeEnvelope_blobs sha256 hencoded item (mem_of_mem_keepFirst hsidecar)
      exact ⟨hblob.2, List.mem_cons_of_mem _ hblob.1⟩

variable {sha256} {s : Stores} {hash : String} {r : Rewrite}

theorem Rewritten.digest (hr : Rewritten sha256 s hash r) (haddressed : s.Addressed sha256) :
    ∀ blob, (∃ key, r.after.blobs.get? key = some blob) →
      blob.hash = sha256.hex blob.bytes ∧ blob.bytes ∈ r.contents := by
  rintro blob ⟨key, hget⟩
  rw [hr.after, get?_replaceContent] at hget
  by_cases hkey : key = hash
  · rw [if_pos hkey] at hget
    cases hget
  · rw [if_neg hkey] at hget
    unfold Rewrite.contents
    rw [hr.before]
    cases hstored : s.blobs.get? key with
    | some stored =>
      rw [hstored] at hget
      cases hget
      have hmem := (Table.get?_eq_some.mp hstored).1
      exact ⟨haddressed.digest blob hmem, List.mem_append_left _ (List.mem_map_of_mem hmem)⟩
    | none =>
      rw [hstored] at hget
      have hitem : blob ∈ blobsForCanonical r.canonical :=
        List.mem_of_find?_eq_some (by simpa using hget)
      have hdigest := blobsForCanonical_digest sha256 hr.canonical blob hitem
      exact ⟨hdigest.1, List.mem_append_right _ hdigest.2⟩

/-- What is written can be read, unless it stands where the old envelope stood. -/
theorem Rewritten.get?_written (hr : Rewritten sha256 s hash r)
    (haddressed : s.Addressed sha256) (hseparates : sha256.Separates r.contents)
    {item : BlobObject} (hitem : item ∈ blobsForCanonical r.canonical) :
    (r.after.blobs.get? item.hash).map (·.bytes) =
      if item.hash = hash then none else some item.bytes := by
  by_cases hold : item.hash = hash
  · rw [if_pos hold, hr.after, get?_replaceContent, if_pos hold]
    rfl
  · rw [if_neg hold]
    have hdigest := blobsForCanonical_digest sha256 hr.canonical item hitem
    have hsome : (r.after.blobs.get? item.hash).isSome = true := by
      rw [hr.after, get?_replaceContent, if_neg hold]
      cases hstored : s.blobs.get? item.hash with
      | some stored => rfl
      | none =>
        have hfound : ((blobsForCanonical r.canonical).find? fun other =>
            other.hash = item.hash).isSome = true :=
          List.find?_isSome.mpr ⟨item, hitem, by simp⟩
        simpa using hfound
    obtain ⟨blob, hget⟩ := Option.isSome_iff_exists.mp hsome
    have hblob := hr.digest haddressed blob ⟨_, hget⟩
    have hkey : blob.hash = item.hash := (Table.get?_eq_some.mp hget).2
    have hsame : sha256.hex blob.bytes = sha256.hex item.bytes := by
      rw [← hblob.1, hkey, hdigest.1]
    have hbytes : blob.bytes = item.bytes := by
      apply hseparates blob.bytes hblob.2 item.bytes _ hsame
      exact List.mem_append_right _ hdigest.2
    rw [hget, Option.map_some, hbytes]

theorem Rewritten.separates_parts (hseparates : sha256.Separates r.contents) :
    sha256.Separates (r.content.filterMap canonicalizePart) := by
  intro x hx y hy
  have hwithin : ∀ bytes ∈ r.content.filterMap canonicalizePart, bytes ∈ r.contents :=
    fun bytes hbytes => List.mem_append_right _ (List.mem_cons_of_mem _ hbytes)
  exact hseparates x (hwithin x hx) y (hwithin y hy)

end Regenic.Ingest
