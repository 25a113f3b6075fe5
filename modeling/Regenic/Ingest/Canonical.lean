import Regenic.Ingest.Content

/-!
What can be read back from canonical content: the canonical bytes of a lone raw part, and
for each part of an envelope the text of its entry or the blob of the hash the entry names.
An attachment that carries text leaves nothing in its entry, and bytes that are written
into an entry as text come back changed unless they were UTF-8.
-/

namespace Regenic.Ingest

open Lib

variable (sha256 : Sha256)

/-- No two of the contents share a digest. -/
def Sha256.Separates (contents : List Bytes) : Prop :=
  ∀ x ∈ contents, ∀ y ∈ contents, sha256.hex x = sha256.hex y → x = y

theorem present_hex (bytes : Bytes) : present (some (sha256.hex bytes)) = some (sha256.hex bytes) := by
  apply present_some.mpr
  constructor
  · rfl
  · intro hempty
    have hshape := sha256.shape bytes
    rw [hempty] at hshape
    exact absurd hshape (by decide)

/-! ## The entries of an envelope -/

/-- The entry at a position of an envelope. -/
def entryAt (bytes : Bytes) (i : Nat) : Option StoredContentPart :=
  (parseStoredContentParts bytes).bind fun entries => entries[i]?.join

/-- What an encoded part reads as. -/
def entryOf (part : ContentPart) (text contentHash : Option String) : StoredContentPart where
  role := some part.role.name
  mediaType := some part.mediaType
  sourceFilename := present part.sourceFilename
  text := text
  contentHash := contentHash
  externalLocator := part.externalLocator?

theorem present_externalLocator (part : ContentPart) :
    present part.externalLocator? = part.externalLocator? := by
  unfold ContentPart.externalLocator?
  split
  · exact present_present _
  · rfl
  · exact present_present _

theorem ofJson_ofRecord_head (part : ContentPart) :
    StoredContentPart.ofJson (Json.ofRecord (envelopeHead part)) = entryOf part none none := by
  have hlocator := present_externalLocator part
  unfold envelopeHead optionalField entryOf
  rw [hlocator]
  cases present part.sourceFilename <;> cases part.externalLocator? <;> rfl

theorem ofJson_ofRecord_text (part : ContentPart) (text : String) :
    StoredContentPart.ofJson (Json.ofRecord (envelopeHead part ++ [("text", text)])) =
      entryOf part (some text) none := by
  have hlocator := present_externalLocator part
  unfold envelopeHead optionalField entryOf
  rw [hlocator]
  cases present part.sourceFilename <;> cases part.externalLocator? <;> rfl

theorem ofJson_ofRecord_hash (part : ContentPart) (hash : String) :
    StoredContentPart.ofJson (Json.ofRecord (envelopeHead part ++ [("content_hash", hash)])) =
      entryOf part none (some hash) := by
  have hlocator := present_externalLocator part
  unfold envelopeHead optionalField entryOf
  rw [hlocator]
  cases present part.sourceFilename <;> cases part.externalLocator? <;> rfl

/-- An envelope is read back record by record. -/
theorem entryAt_stringifyRecords (records : List (List (String × String))) (i : Nat) :
    entryAt (utf8Encode (Json.stringifyRecords records)) i =
      records[i]?.map fun record => .ofJson (Json.ofRecord record) := by
  unfold entryAt parseStoredContentParts
  rw [utf8Decode_utf8Encode, Json.parse_stringifyRecords]
  cases records with
  | nil => rfl
  | cons record rest =>
    have hentries : (Json.ofRecord record :: rest.map Json.ofRecord).map storedElement =
        (record :: rest).map fun record => some (.ofJson (Json.ofRecord record)) := by
      rw [← List.map_cons, List.map_map]
      rfl
    change ((Json.ofRecord record :: rest.map Json.ofRecord).map storedElement)[i]?.join = _
    rw [hentries, List.getElem?_map]
    cases (record :: rest)[i]? <;> rfl

/-- The three ways a part is written into an envelope. -/
theorem encodeEnvelopePart_cases {part : ContentPart} {record : List (String × String)}
    {own : List BlobObject} (h : encodeEnvelopePart sha256 part = some (record, own)) :
    (isUnresolved part = true ∧ own = [] ∧
      StoredContentPart.ofJson (Json.ofRecord record) = entryOf part none none) ∨
    (∃ bytes, isUnresolved part = false ∧ canonicalizePart part = some bytes ∧
      shouldInlinePart part = true ∧ own = [] ∧
      StoredContentPart.ofJson (Json.ofRecord record) =
        entryOf part (some (utf8Decode bytes)) none) ∨
    (∃ bytes, isUnresolved part = false ∧ canonicalizePart part = some bytes ∧
      shouldInlinePart part = false ∧
      own = [{ hash := sha256.hex bytes, bytes, mediaType := part.mediaType }] ∧
      StoredContentPart.ofJson (Json.ofRecord record) =
        entryOf part none (some (sha256.hex bytes))) := by
  unfold encodeEnvelopePart at h
  by_cases hpointer : isUnresolved part = true
  · rw [if_pos hpointer] at h
    cases h
    exact .inl ⟨hpointer, rfl, ofJson_ofRecord_head part⟩
  · rw [if_neg hpointer] at h
    have hresolved : isUnresolved part = false := by simpa using hpointer
    obtain ⟨bytes, hbytes, hwritten⟩ := Option.map_eq_some_iff.mp h
    by_cases hinline : shouldInlinePart part = true
    · rw [if_pos hinline] at hwritten
      cases hwritten
      exact .inr (.inl ⟨bytes, hresolved, hbytes, hinline, rfl, ofJson_ofRecord_text part _⟩)
    · rw [if_neg hinline] at hwritten
      cases hwritten
      exact .inr (.inr ⟨bytes, hresolved, hbytes, by simpa using hinline, rfl,
        ofJson_ofRecord_hash part _⟩)

/-- The records of an envelope stand at the positions of its parts. -/
theorem encodeEnvelope_getElem {parts : List ContentPart}
    {records : List (List (String × String))} {blobs : List BlobObject}
    (h : encodeEnvelope sha256 parts = some (records, blobs)) (i : Nat) (part : ContentPart)
    (hpart : parts[i]? = some part) :
    ∃ record own, encodeEnvelopePart sha256 part = some (record, own) ∧
      records[i]? = some record ∧ ∀ blob ∈ own, blob ∈ blobs := by
  induction parts generalizing records blobs i with
  | nil => simp at hpart
  | cons first rest ih =>
    simp only [encodeEnvelope, Option.bind_eq_bind, Option.bind_eq_some_iff] at h
    obtain ⟨⟨fields, own⟩, hfirst, ⟨later, more⟩, hrest, hout⟩ := h
    cases hout
    cases i with
    | zero =>
      simp only [List.getElem?_cons_zero, Option.some.injEq] at hpart
      subst hpart
      exact ⟨fields, own, hfirst, rfl, fun blob hblob => List.mem_append_left _ hblob⟩
    | succ i =>
      obtain ⟨record, mine, hencoded, hrecord, hmine⟩ := ih hrest i hpart
      exact ⟨record, mine, hencoded, hrecord, fun blob hblob =>
        List.mem_append_right _ (hmine blob hblob)⟩

/-- Every blob of an envelope is the content of one of its parts, under its digest. -/
theorem encodeEnvelope_blobs {parts : List ContentPart}
    {records : List (List (String × String))} {blobs : List BlobObject}
    (h : encodeEnvelope sha256 parts = some (records, blobs)) (blob : BlobObject)
    (hblob : blob ∈ blobs) :
    blob.bytes ∈ parts.filterMap canonicalizePart ∧ blob.hash = sha256.hex blob.bytes := by
  induction parts generalizing records blobs with
  | nil =>
    cases h
    simp at hblob
  | cons first rest ih =>
    simp only [encodeEnvelope, Option.bind_eq_bind, Option.bind_eq_some_iff] at h
    obtain ⟨⟨fields, own⟩, hfirst, ⟨later, more⟩, hrest, hout⟩ := h
    cases hout
    rcases List.mem_append.mp hblob with hown | hmore
    · obtain ⟨-, rfl, -⟩ | ⟨_, -, -, -, rfl, -⟩ | ⟨bytes, -, hbytes, -, rfl, -⟩ :=
        encodeEnvelopePart_cases sha256 hfirst
      · simp at hown
      · simp at hown
      · have heq := List.mem_singleton.mp hown
        subst heq
        exact ⟨List.mem_filterMap.mpr ⟨first, List.mem_cons_self, hbytes⟩, rfl⟩
    · have hlater := ih hrest hmore
      obtain ⟨part, hpart, hbytes⟩ := List.mem_filterMap.mp hlater.1
      exact ⟨List.mem_filterMap.mpr ⟨part, List.mem_cons_of_mem first hpart, hbytes⟩, hlater.2⟩

/-- Under its digest the blob of a part is found with the bytes of the part. -/
theorem find?_uniqueBlobs {contents : List Bytes} (hseparates : sha256.Separates contents)
    {blobs : List BlobObject}
    (hdigests : ∀ blob ∈ blobs, blob.bytes ∈ contents ∧ blob.hash = sha256.hex blob.bytes)
    {blob : BlobObject} (hblob : blob ∈ blobs) :
    ((uniqueBlobs blobs).find? fun other => other.hash = blob.hash).map (·.bytes) =
      some blob.bytes := by
  unfold uniqueBlobs
  rw [find?_keepFirst]
  cases hfound : blobs.find? fun other => other.hash = blob.hash with
  | none =>
    have hmiss := List.find?_eq_none.mp hfound blob hblob
    simp at hmiss
  | some other =>
    have hother := hdigests other (List.mem_of_find?_eq_some hfound)
    have hhash : other.hash = blob.hash := by simpa using List.find?_some hfound
    have hsame : sha256.hex other.bytes = sha256.hex blob.bytes := by
      rw [← hother.2, hhash, (hdigests blob hblob).2]
    rw [Option.map_some, hseparates _ hother.1 _ (hdigests blob hblob).1 hsame]

/-! ## Reading canonical content -/

/-- Whether a list of parts is stored as the bytes of its only part. -/
def isRaw : List ContentPart → Bool
  | [part] => storedRaw part
  | _ => false

/-- The bytes stored for the part at a position. -/
def recovered (raw : Bool) (canonical : CanonicalContent) (i : Nat) : Option Bytes :=
  if raw then some canonical.bytes
  else
    (entryAt canonical.bytes i).bind fun entry =>
      match entry.text with
      | some text => some (utf8Encode text)
      | none =>
        (storedPartContentHash entry).bind fun hash =>
          (canonical.blobs.find? fun blob => blob.hash = hash).map (·.bytes)

/-- Text, or bytes that are not empty and no JSON document standing in for another file. -/
def carriesContent (part : ContentPart) : Bool :=
  match part.content with
  | .text _ => true
  | .bytes bytes _ =>
    bytes ≠ [] && (part.role ≠ .attachment ||
      isUsableAttachmentBytes bytes part.mediaType part.sourceFilename)
  | .pointer _ => false

/-- The content of a part, text with the line ends normalised. -/
def contentBytes (part : ContentPart) : Bytes :=
  match part.content with
  | .text text => utf8Encode (normalizeNewlines text)
  | .bytes bytes _ => bytes
  | .pointer _ => []

def KeepsContent (parts : List ContentPart) (canonical : CanonicalContent) : Prop :=
  ∀ i part, parts[i]? = some part → carriesContent part = true →
    recovered (isRaw parts) canonical i = some (contentBytes part)

/-- A part an envelope keeps: text that is no attachment's, and bytes that are UTF-8 where
they are written as text. -/
def survivesEnvelope (part : ContentPart) : Bool :=
  match part.content with
  | .text _ => part.role ≠ .attachment
  | .bytes bytes _ => !shouldInlinePart part || utf8Encode (utf8Decode bytes) = bytes
  | .pointer _ => true

theorem canonicalizePart_of_carries {part : ContentPart} (hcarries : carriesContent part = true) :
    canonicalizePart part = some (contentBytes part) := by
  unfold carriesContent at hcarries
  unfold canonicalizePart contentBytes
  cases hcontent : part.content with
  | text text => rfl
  | bytes bytes locator => rfl
  | pointer locator => simp [hcontent] at hcarries

/-- An attachment that carries content is unresolved when the content is text. -/
theorem isUnresolved_of_carries {part : ContentPart} (hcarries : carriesContent part = true) :
    isUnresolved part = (part.role = .attachment && part.text?.isSome) := by
  unfold carriesContent at hcarries
  unfold isUnresolved ContentPart.bytes? ContentPart.text?
  cases hcontent : part.content with
  | text text => simp
  | bytes bytes locator =>
    rw [hcontent] at hcarries
    by_cases hrole : part.role = .attachment
    · simp only [hrole, ne_eq, not_true_eq_false, decide_false, Bool.false_or,
        Bool.and_eq_true] at hcarries
      simp [hcarries.2]
    · simp [hrole]
  | pointer locator => simp [hcontent] at hcarries

/-- What the envelope gives back of a part that carries content. -/
theorem recovered_of_carries {parts : List ContentPart} {canonical : CanonicalContent}
    (hcanonical : canonicalizeEnvelope sha256 parts = some canonical)
    (hseparates : sha256.Separates (parts.filterMap canonicalizePart)) {i : Nat}
    {part : ContentPart} (hpart : parts[i]? = some part) (hcarries : carriesContent part = true) :
    recovered false canonical i =
      if part.role = .attachment ∧ part.text?.isSome then none
      else if shouldInlinePart part then some (utf8Encode (utf8Decode (contentBytes part)))
      else some (contentBytes part) := by
  obtain ⟨⟨records, blobs⟩, hencoded, hout⟩ := Option.map_eq_some_iff.mp hcanonical
  cases hout
  obtain ⟨record, own, hrecord, hat, hown⟩ := encodeEnvelope_getElem sha256 hencoded i part hpart
  have hbytes := canonicalizePart_of_carries hcarries
  have hunresolved := isUnresolved_of_carries hcarries
  have hentry : entryAt (utf8Encode (Json.stringifyRecords records)) i =
      some (.ofJson (Json.ofRecord record)) := by
    rw [entryAt_stringifyRecords, hat]
    rfl
  unfold recovered
  simp only [Bool.false_eq_true, if_false, hentry, Option.bind_some]
  obtain ⟨hpointer, -, hread⟩ | ⟨bytes, hresolved, hcontent, hinline, -, hread⟩ |
    ⟨bytes, hresolved, hcontent, hinline, rfl, hread⟩ := encodeEnvelopePart_cases sha256 hrecord
  · rw [hpointer] at hunresolved
    have htext : part.role = .attachment ∧ part.text?.isSome = true := by
      simpa using hunresolved.symm
    rw [hread, if_pos htext]
    rfl
  · rw [hresolved] at hunresolved
    have htext : ¬ (part.role = .attachment ∧ part.text?.isSome = true) := by
      simpa using hunresolved.symm
    rw [hcontent] at hbytes
    cases hbytes
    rw [hread, if_neg htext, if_pos hinline]
    rfl
  · rw [hresolved] at hunresolved
    have htext : ¬ (part.role = .attachment ∧ part.text?.isSome = true) := by
      simpa using hunresolved.symm
    rw [hcontent] at hbytes
    cases hbytes
    have hblob := hown _ List.mem_cons_self
    have hfound := find?_uniqueBlobs sha256 hseparates (encodeEnvelope_blobs sha256 hencoded) hblob
    have hhash : storedPartContentHash (entryOf part none (some (sha256.hex (contentBytes part)))) =
        some (sha256.hex (contentBytes part)) := by
      unfold storedPartContentHash entryOf
      simp only [present_hex, Option.filter, sha256.shape, if_true]
    rw [hread, if_neg htext, if_neg (by simp [hinline])]
    simp only [entryOf] at hhash ⊢
    rw [hhash]
    exact hfound

/-- Both ways of recovering what was put in say the same of a part. -/
theorem recovered_eq_content_iff {parts : List ContentPart} {canonical : CanonicalContent}
    (hcanonical : canonicalizeEnvelope sha256 parts = some canonical)
    (hseparates : sha256.Separates (parts.filterMap canonicalizePart)) {i : Nat}
    {part : ContentPart} (hpart : parts[i]? = some part) (hcarries : carriesContent part = true) :
    recovered false canonical i = some (contentBytes part) ↔ survivesEnvelope part = true := by
  rw [recovered_of_carries sha256 hcanonical hseparates hpart hcarries]
  unfold survivesEnvelope contentBytes ContentPart.text?
  cases hcontent : part.content with
  | text text =>
    by_cases hrole : part.role = .attachment
    · simp [hrole]
    · simp [hrole, utf8Decode_utf8Encode]
  | bytes bytes locator =>
    by_cases hinline : shouldInlinePart part = true
    · simp [hinline]
    · simp [hinline]
  | pointer locator =>
    unfold carriesContent at hcarries
    simp [hcontent] at hcarries

/-- A part that carries nothing survives. -/
theorem survivesEnvelope_of_not_carries {part : ContentPart}
    (hcarries : ¬ carriesContent part = true) : survivesEnvelope part = true := by
  unfold carriesContent at hcarries
  unfold survivesEnvelope
  cases hcontent : part.content with
  | text text => simp [hcontent] at hcarries
  | bytes bytes locator =>
    rw [hcontent] at hcarries
    by_cases hempty : bytes = []
    · subst hempty
      simp [utf8Decode, utf8Encode, Utf8.decodeChars]
    · have hrole : part.role = .attachment := by
        by_contra hother
        simp [hempty, hother] at hcarries
      simp [shouldInlinePart, hrole]
  | pointer locator => rfl

theorem canonicalizeContent_of_raw {parts : List ContentPart} {canonical : CanonicalContent}
    (h : canonicalizeContent sha256 parts = some canonical) (hraw : isRaw parts = true) :
    ∃ part, parts = [part] ∧ canonicalizePart part = some canonical.bytes := by
  match parts with
  | [] => cases h
  | [part] =>
    simp only [isRaw] at hraw
    simp only [canonicalizeContent, if_pos hraw] at h
    obtain ⟨bytes, hbytes, hout⟩ := Option.map_eq_some_iff.mp h
    cases hout
    exact ⟨part, rfl, hbytes⟩
  | _ :: _ :: _ => simp [isRaw] at hraw

theorem canonicalizeContent_of_not_raw {parts : List ContentPart} {canonical : CanonicalContent}
    (h : canonicalizeContent sha256 parts = some canonical) (hraw : isRaw parts = false) :
    canonicalizeEnvelope sha256 parts = some canonical := by
  match parts with
  | [] => cases h
  | [part] =>
    simp only [isRaw] at hraw
    simpa only [canonicalizeContent, hraw, Bool.false_eq_true, if_false] using h
  | _ :: _ :: _ => exact h

/-- A message with a text file whose text came along instead of its bytes. -/
def textAttachmentParts : List ContentPart :=
  [{ role := .body, mediaType := "text/plain", content := .text "see file" },
   { role := .attachment, mediaType := "text/plain", sourceFilename := some "a.txt",
     content := .text "the file" }]

/-- A message with a text file whose bytes came along. -/
def bytesAttachmentParts : List ContentPart :=
  [{ role := .body, mediaType := "text/plain", content := .text "see file" },
   { role := .attachment, mediaType := "text/plain", sourceFilename := some "a.txt",
     content := .bytes [0x61] }]

/-- The digests of the contents of the two messages. -/
def fileDigests : Sha256 :=
  .ofDigests
    [([0x61], "ca978112ca1bbdcafac231b39a23dc4da786eff8147c4e72b9807785afee48bb"),
     (utf8Encode "see file", "1e0922babd6f293b4be18677cfb7ab343f21db8296910cc315342ff83bd2dda6"),
     (utf8Encode "the file", "994659de87f727ddcde75df44314f31d7f367b3bff347e852f390530f29720c7")]

end Regenic.Ingest
