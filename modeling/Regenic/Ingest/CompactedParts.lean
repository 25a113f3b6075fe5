import Regenic.Ingest.Compaction

/-!
What is left of the parts of an envelope that a compaction run rewrites, and of the blobs
that events and envelopes refer to. A part survives when it carries one payload; a locator or
a hash beside its bytes, or bytes beside its text, are gone with the old envelope.
-/

namespace Regenic.Ingest

open Lib

variable (sha256 : Sha256)

/-! ## What a rewrite keeps -/

/-- What the stores hold for one part: its bytes, the hash it is named under, its locator. -/
structure Held where
  bytes : Option Bytes := none
  contentHash : Option String := none
  externalLocator : Option String := none
  deriving DecidableEq, Repr

/-- What the stores hold at a position of some content, read as the bytes of a lone part or
as an envelope. -/
def Stores.held (s : Stores) (raw : Bool) (hash : String) (i : Nat) : Option Held :=
  (s.blobs.get? hash).bind fun blob =>
    if raw then some { bytes := some blob.bytes, contentHash := some hash }
    else
      (entryAt blob.bytes i).map fun entry =>
        { bytes := match entry.text with
            | some text => some (utf8Encode text)
            | none => (storedPartContentHash entry).bind fun sidecar =>
                (s.blobs.get? sidecar).map (·.bytes)
          contentHash := storedPartContentHash entry
          externalLocator := present entry.externalLocator }

/-- All that a stored part carries is held. -/
structure Represents (part : StoredContentPart) (held : Held) : Prop where
  text : ∀ text, part.text = some text → held.bytes = some (utf8Encode text)
  bytes : ∀ bytes, storedPartBytes part = some bytes → held.bytes = some bytes
  contentHash : ∀ hash, storedPartContentHash part = some hash → held.contentHash = some hash
  externalLocator : ∀ locator, present part.externalLocator = some locator →
    held.externalLocator = some locator

/-- Every part is still there at its position. -/
def Rewrite.KeepsParts (r : Rewrite) : Prop :=
  ∀ (i : Nat) part, r.entries[i]? = some (some part) →
    ∃ held, r.after.held (isRaw r.content) r.canonical.hash i = some held ∧ Represents part held

/-- An entry of the bytes, read as an envelope, names the hash. -/
def Names (bytes : Bytes) (hash : String) : Prop :=
  ∃ i entry, entryAt bytes i = some entry ∧ storedPartContentHash entry = some hash

def Stores.isEnvelope (s : Stores) (hash : String) : Prop :=
  (s.authority.blobs.get? hash).map (·.mediaType) = some contentPartsMediaType

/-- The content of an event, or an entry of an envelope that is the content of an event. -/
def Stores.RefersTo (s : Stores) (hash : String) : Prop :=
  ∃ event ∈ s.authority.events.rows, ∃ own, event.contentHash = some own ∧
    (own = hash ∨
      s.isEnvelope own ∧ ∃ blob, s.blobs.get? own = some blob ∧ Names blob.bytes hash)

/-- No blob that is still referred to is deleted. -/
def Rewrite.KeepsReferences (r : Rewrite) : Prop :=
  ∀ hash, (r.before.blobs.get? hash).isSome = true → r.after.RefersTo hash →
    (r.after.blobs.get? hash).isSome = true

/-- A stored part that comes through as `content`: it carries one payload, or the same one
under several names. -/
def SurvivesRewrite (raw : Bool) (old : String) (part : StoredContentPart)
    (content : ContentPart) : Prop :=
  match content.content with
  | .pointer _ => part.text = none ∧ storedPartContentHash part = none
  | _ =>
    present part.externalLocator = none ∧
      (raw = true ∨ isUnresolved content = false) ∧
      (raw = true ∨ shouldInlinePart content = true ∨ sha256.hex (contentBytes content) ≠ old) ∧
      (∀ text, part.text = some text → utf8Encode text = contentBytes content) ∧
      (∀ bytes, storedPartBytes part = some bytes → bytes = contentBytes content) ∧
      ∀ hash, storedPartContentHash part = some hash →
        hash = sha256.hex (contentBytes content) ∧
          (raw = true ∨ shouldInlinePart content = false)

def Rewrite.PartsSurvive (r : Rewrite) : Prop :=
  ∀ (i : Nat) part content, r.entries[i]? = some (some part) → r.content[i]? = some content →
    SurvivesRewrite sha256 (isRaw r.content) r.hash part content

/-- No other event's envelope names the one that is rewritten, and neither do the bytes of its
own parts. -/
structure Rewrite.Unnamed (r : Rewrite) : Prop where
  events : ∀ event ∈ r.before.authority.events.rows, ∀ own, event.contentHash = some own →
    own ≠ r.hash → r.before.isEnvelope own →
      ∀ blob, r.before.blobs.get? own = some blob → ¬ Names blob.bytes r.hash
  parts : ∀ content ∈ r.content, ¬ Names (contentBytes content) r.hash

variable {sha256} {s : Stores} {hash : String} {r : Rewrite}

/-- What is held of a part that was written. -/
def heldWritten (sha256 : Sha256) (raw : Bool) (old : String) (content : ContentPart) : Held :=
  let bytes := contentBytes content
  if raw then { bytes := some bytes, contentHash := some (sha256.hex bytes) }
  else if isUnresolved content then { externalLocator := content.externalLocator? }
  else if shouldInlinePart content then
    { bytes := some (utf8Encode (utf8Decode bytes)), externalLocator := content.externalLocator? }
  else
    { bytes := if sha256.hex bytes = old then none else some bytes
      contentHash := some (sha256.hex bytes)
      externalLocator := content.externalLocator? }

theorem storedPartContentHash_hex (part : ContentPart) (text : Option String) (bytes : Bytes) :
    storedPartContentHash (entryOf part text (some (sha256.hex bytes))) =
      some (sha256.hex bytes) := by
  unfold storedPartContentHash entryOf
  simp only [present_hex, Option.filter, sha256.shape, if_true]

theorem Rewritten.held (hr : Rewritten sha256 s hash r) (haddressed : s.Addressed sha256)
    (hseparates : sha256.Separates r.contents) {i : Nat} {content : ContentPart}
    (hcontent : r.content[i]? = some content) :
    r.after.held (isRaw r.content) r.canonical.hash i =
      some (heldWritten sha256 (isRaw r.content) hash content) := by
  have hself : ⟨r.canonical.hash, r.canonical.bytes, r.canonical.mediaType⟩ ∈
      blobsForCanonical r.canonical := List.mem_cons_self
  have hwritten := hr.get?_written haddressed hseparates hself
  rw [if_neg hr.moved] at hwritten
  obtain ⟨blob, hget, hbytes⟩ := Option.map_eq_some_iff.mp hwritten
  unfold Stores.held
  rw [hget, Option.bind_some, hbytes]
  cases hraw : isRaw r.content with
  | true =>
    obtain ⟨lone, hlone, hlonebytes⟩ := canonicalizeContent_of_raw sha256 hr.canonical hraw
    have hsame : content = lone := by
      have hmem := List.mem_of_getElem? hcontent
      rw [hlone] at hmem
      exact List.mem_singleton.mp hmem
    subst hsame
    have hcanonical := canonicalizePart_eq hlonebytes
    simp only [if_true, heldWritten, ← hcanonical, canonicalizeContent_hash sha256 hr.canonical]
  | false =>
    have henvelope := canonicalizeContent_of_not_raw sha256 hr.canonical hraw
    obtain ⟨⟨records, blobs⟩, hencoded, hout⟩ := Option.map_eq_some_iff.mp henvelope
    obtain ⟨record, own, hrecord, hat, hown⟩ :=
      encodeEnvelope_getElem sha256 hencoded i content hcontent
    have hentry : entryAt r.canonical.bytes i = some (.ofJson (Json.ofRecord record)) := by
      rw [← hout, entryAt_stringifyRecords, hat]
      rfl
    have hlocator := present_externalLocator content
    simp only [Bool.false_eq_true, if_false, hentry, Option.map_some]
    obtain ⟨hpointer, -, hread⟩ | ⟨bytes, hresolved, hpart, hinline, -, hread⟩ |
      ⟨bytes, hresolved, hpart, hinline, rfl, hread⟩ := encodeEnvelopePart_cases sha256 hrecord
    · rw [hread]
      simp only [heldWritten, hpointer, Bool.false_eq_true, if_false, if_true, entryOf, hlocator]
      rfl
    · rw [hread, canonicalizePart_eq hpart]
      simp only [heldWritten, hresolved, hinline, Bool.false_eq_true, if_false, if_true, entryOf,
        hlocator]
      rfl
    · obtain rfl := canonicalizePart_eq hpart
      have hfound := find?_uniqueBlobs sha256 (Rewritten.separates_parts hseparates)
        (encodeEnvelope_blobs sha256 hencoded) (hown _ List.mem_cons_self)
      obtain ⟨other, hother, hotherbytes⟩ := Option.map_eq_some_iff.mp hfound
      have hotherhash : other.hash = sha256.hex (contentBytes content) := by
        simpa using List.find?_some hother
      have hitem : other ∈ blobsForCanonical r.canonical := by
        rw [← hout]
        exact List.mem_cons_of_mem _ (List.mem_of_find?_eq_some hother)
      have hsidecar := hr.get?_written haddressed hseparates hitem
      rw [hotherhash, hotherbytes] at hsidecar
      rw [hread]
      simp only [heldWritten, hresolved, hinline, Bool.false_eq_true, if_false,
        storedPartContentHash_hex, Option.bind_some, hsidecar]
      simp only [entryOf, hlocator]

/-! ## Parts that survive -/

/-- The branch that was taken for a part. -/
inductive Converted (part : StoredContentPart) (content : ContentPart) : Prop where
  | text (text : String) (hcontent : content.content = .text text)
      (htext : storedPartText part = some text)
  | bytes (bytes : Bytes) (hcontent : content.content = .bytes bytes)
      (hbytes : storedPartBytes part = some bytes) (hinline : shouldInlinePart content = false)
  | pointer (locator : String) (hcontent : content.content = .pointer locator)
      (hbytes : storedPartBytes part = none)
      (hlocator : present part.externalLocator = some locator)

theorem not_inline_of_no_text {part : StoredContentPart} {mediaType : String} {bytes : Bytes}
    (htext : storedPartText part = none) (hbytes : storedPartBytes part = some bytes)
    (hmedia : present part.mediaType = some mediaType) : isTextMediaType mediaType = false := by
  obtain ⟨encoded, hencoded, -⟩ := Option.map_eq_some_iff.mp hbytes
  unfold storedPartText at htext
  cases hown : part.text with
  | some text =>
    rw [hown] at htext
    cases htext
  | none =>
    rw [hown, hencoded, hmedia] at htext
    simp only at htext
    cases hkind : isTextMediaType mediaType with
    | true =>
      rw [hkind] at htext
      cases htext
    | false => rfl

theorem partToContent_converted {part : StoredContentPart} {content : ContentPart}
    (h : partToContent part = some content) : Converted part content := by
  simp only [partToContent, Option.bind_eq_bind, Option.bind_eq_some_iff, Option.pure_def,
    Option.some.injEq] at h
  obtain ⟨role, -, mediaType, hmedia, payload, hpayload, rfl⟩ := h
  unfold partContent at hpayload
  cases htext : (storedPartText part).filter fun _ => role ≠ .attachment with
  | some text =>
    rw [htext] at hpayload
    cases hpayload
    exact .text text rfl (Option.filter_eq_some_iff.mp htext).1
  | none =>
    rw [htext] at hpayload
    simp only at hpayload
    cases hbytes : storedPartBytes part with
    | some bytes =>
      rw [hbytes] at hpayload
      cases hpayload
      apply Converted.bytes bytes rfl hbytes
      unfold shouldInlinePart
      by_cases hrole : role = .attachment
      · simp [hrole]
      · have hnotext : storedPartText part = none := by
          cases hread : storedPartText part with
          | none => rfl
          | some text =>
            rw [hread] at htext
            simp [hrole] at htext
        simp [not_inline_of_no_text hnotext hbytes hmedia]
    | none =>
      rw [hbytes] at hpayload
      simp only at hpayload
      obtain ⟨locator, hlocator, hout⟩ := Option.map_eq_some_iff.mp hpayload
      exact .pointer locator hout.symm hbytes hlocator

/-- A part with text has it as such or as bytes. -/
theorem payload_of_text {part : StoredContentPart} {text : String}
    (h : storedPartText part = some text) :
    part.text = some text ∨ ∃ bytes, storedPartBytes part = some bytes := by
  unfold storedPartText at h
  cases hown : part.text with
  | some own =>
    rw [hown] at h
    exact .inl h
  | none =>
    rw [hown] at h
    right
    unfold storedPartBytes
    cases hencoded : present part.bytesBase64 with
    | some encoded => exact ⟨_, rfl⟩
    | none =>
      rw [hencoded] at h
      cases h

/-- A part has content of its own. -/
def HasPayload (part : StoredContentPart) : Prop :=
  (∃ text, part.text = some text) ∨ ∃ bytes, storedPartBytes part = some bytes

theorem represents_payload {part : StoredContentPart} {bytes : Bytes} {named : Option String} :
    Represents part { bytes := some bytes, contentHash := named } ↔
      present part.externalLocator = none ∧
        (∀ text, part.text = some text → utf8Encode text = bytes) ∧
        (∀ own, storedPartBytes part = some own → own = bytes) ∧
        ∀ hash, storedPartContentHash part = some hash → named = some hash := by
  constructor
  · intro h
    have hlocator : present part.externalLocator = none := by
      cases hown : present part.externalLocator with
      | none => rfl
      | some locator => cases h.externalLocator locator hown
    refine ⟨hlocator, ?_, ?_, h.contentHash⟩
    · intro text htext
      exact (Option.some.inj (h.text text htext)).symm
    · intro own hown
      exact (Option.some.inj (h.bytes own hown)).symm
  · rintro ⟨hlocator, htext, hbytes, hhash⟩
    constructor
    · intro text hown
      rw [htext text hown]
    · intro own hown
      rw [hbytes own hown]
    · exact hhash
    · intro locator hown
      rw [hlocator] at hown
      cases hown

theorem not_represents {part : StoredContentPart} {held : Held} (hpayload : HasPayload part)
    (hnone : held.bytes = none) : ¬ Represents part held := by
  intro h
  rcases hpayload with ⟨text, htext⟩ | ⟨bytes, hbytes⟩
  · have hheld := h.text text htext
    rw [hnone] at hheld
    cases hheld
  · have hheld := h.bytes bytes hbytes
    rw [hnone] at hheld
    cases hheld

/-- A part that was written with its content. -/
structure WrittenPart (part : StoredContentPart) (content : ContentPart) : Prop where
  payload : HasPayload part
  notPointer : ∀ locator, content.content ≠ .pointer locator
  locator : content.externalLocator? = none
  inline : shouldInlinePart content = true →
    utf8Encode (utf8Decode (contentBytes content)) = contentBytes content

theorem WrittenPart.survives_iff {raw : Bool} {old : String} {part : StoredContentPart}
    {content : ContentPart} (h : WrittenPart part content) :
    SurvivesRewrite sha256 raw old part content ↔
      present part.externalLocator = none ∧
      (raw = true ∨ isUnresolved content = false) ∧
      (raw = true ∨ shouldInlinePart content = true ∨ sha256.hex (contentBytes content) ≠ old) ∧
      (∀ text, part.text = some text → utf8Encode text = contentBytes content) ∧
      (∀ bytes, storedPartBytes part = some bytes → bytes = contentBytes content) ∧
      ∀ hash, storedPartContentHash part = some hash →
        hash = sha256.hex (contentBytes content) ∧
          (raw = true ∨ shouldInlinePart content = false) := by
  unfold SurvivesRewrite
  split
  · next locator hcontent => exact absurd hcontent (h.notPointer locator)
  · rfl

/-- What is held of a part with content represents it exactly when the part survives. -/
theorem WrittenPart.represents_iff {raw : Bool} {old : String} {part : StoredContentPart}
    {content : ContentPart} (h : WrittenPart part content) :
    Represents part (heldWritten sha256 raw old content) ↔
      SurvivesRewrite sha256 raw old part content := by
  rw [h.survives_iff]
  unfold heldWritten
  rw [h.locator]
  cases raw with
  | true =>
    simp only [if_true, represents_payload, true_or, true_and, Option.some.injEq, and_true]
    simp only [eq_comm]
  | false =>
    simp only [Bool.false_eq_true, if_false, false_or]
    cases hunresolved : isUnresolved content with
    | true =>
      simp only [if_true]
      constructor
      · intro hheld
        exact absurd hheld (not_represents h.payload rfl)
      · rintro ⟨-, hresolved, -⟩
        cases hresolved
    | false =>
      simp only [Bool.false_eq_true, if_false]
      cases hinline : shouldInlinePart content with
      | true =>
        simp only [if_true, h.inline hinline, represents_payload, true_or, true_and]
        simp
      | false =>
        simp only [Bool.false_eq_true, if_false]
        by_cases hold : sha256.hex (contentBytes content) = old
        · simp only [if_pos hold]
          constructor
          · intro hheld
            exact absurd hheld (not_represents h.payload rfl)
          · rintro ⟨-, -, hmoved, -⟩
            simp [hold] at hmoved
        · simp only [if_neg hold, represents_payload, Option.some.injEq]
          simp only [eq_comm]
          simp [hold]

theorem Converted.written {part : StoredContentPart} {content : ContentPart}
    (h : Converted part content) (hpointer : ∀ locator, content.content ≠ .pointer locator) :
    WrittenPart part content := by
  cases h with
  | text text hcontent htext =>
    constructor
    · rcases payload_of_text htext with hown | hbytes
      · exact .inl ⟨text, hown⟩
      · exact .inr hbytes
    · exact hpointer
    · simp only [ContentPart.externalLocator?, hcontent]
    · intro _
      simp only [contentBytes, hcontent, utf8Decode_utf8Encode]
  | bytes bytes hcontent hbytes hinline =>
    constructor
    · exact .inr ⟨bytes, hbytes⟩
    · exact hpointer
    · simp only [ContentPart.externalLocator?, hcontent, present_none]
    · intro hother
      rw [hinline] at hother
      cases hother
  | pointer locator hcontent => exact absurd hcontent (hpointer locator)

/-- A part that only points elsewhere is an attachment, and never stored raw. -/
theorem pointer_unresolved {parts : List ContentPart} {canonical : CanonicalContent}
    (h : canonicalizeContent sha256 parts = some canonical) {i : Nat} {content : ContentPart}
    (hcontent : parts[i]? = some content) {locator : String}
    (hpointer : content.content = .pointer locator) :
    isRaw parts = false ∧ isUnresolved content = true := by
  have hnothing : canonicalizePart content = none := by
    unfold canonicalizePart
    rw [hpointer]
  cases hraw : isRaw parts with
  | true =>
    obtain ⟨lone, rfl, hbytes⟩ := canonicalizeContent_of_raw sha256 h hraw
    have hsame : content = lone := by simpa using List.mem_of_getElem? hcontent
    subst hsame
    rw [hnothing] at hbytes
    cases hbytes
  | false =>
    have henvelope := canonicalizeContent_of_not_raw sha256 h hraw
    obtain ⟨⟨records, blobs⟩, hencoded, -⟩ := Option.map_eq_some_iff.mp henvelope
    obtain ⟨record, own, hrecord, -, -⟩ :=
      encodeEnvelope_getElem sha256 hencoded i content hcontent
    obtain ⟨hunresolved, -, -⟩ | ⟨bytes, -, hbytes, -⟩ | ⟨bytes, -, hbytes, -⟩ :=
      encodeEnvelopePart_cases sha256 hrecord
    · exact ⟨rfl, hunresolved⟩
    · rw [hnothing] at hbytes
      cases hbytes
    · rw [hnothing] at hbytes
      cases hbytes

theorem Converted.represents_iff {parts : List ContentPart} {canonical : CanonicalContent}
    (hcanonical : canonicalizeContent sha256 parts = some canonical) {i : Nat}
    {part : StoredContentPart} {content : ContentPart} (hcontent : parts[i]? = some content)
    (h : Converted part content) (old : String) :
    Represents part (heldWritten sha256 (isRaw parts) old content) ↔
      SurvivesRewrite sha256 (isRaw parts) old part content := by
  by_cases hpointer : ∃ locator, content.content = .pointer locator
  · obtain ⟨locator, hpointer⟩ := hpointer
    obtain ⟨hraw, hunresolved⟩ := pointer_unresolved hcanonical hcontent hpointer
    cases h with
    | text text hother => simp [hpointer] at hother
    | bytes bytes hother => simp [hpointer] at hother
    | pointer own hown hbytes hlocator =>
      have hheld : content.externalLocator? = present part.externalLocator := by
        simp only [ContentPart.externalLocator?, hown]
        rw [← hlocator, present_present]
      unfold heldWritten SurvivesRewrite
      simp only [hraw, hunresolved, hpointer, Bool.false_eq_true, if_false, if_true, hheld]
      constructor
      · intro hrepresents
        constructor
        · cases htext : part.text with
          | none => rfl
          | some text => cases hrepresents.text text htext
        · cases hhash : storedPartContentHash part with
          | none => rfl
          | some hash => cases hrepresents.contentHash hash hhash
      · rintro ⟨htext, hhash⟩
        constructor
        · intro text hown
          rw [htext] at hown
          cases hown
        · intro bytes hown
          rw [hbytes] at hown
          cases hown
        · intro hash hown
          rw [hhash] at hown
          cases hown
        · intro locator hown
          exact hown
  · exact (h.written fun locator hcontent => hpointer ⟨locator, hcontent⟩).represents_iff

theorem Rewritten.converted_at (hr : Rewritten sha256 s hash r) {i : Nat}
    {part : StoredContentPart} (hpart : r.entries[i]? = some (some part)) :
    ∃ content, r.content[i]? = some content ∧ Converted part content := by
  have hall := partsToContent_ok hr.converted
  have hlength := hall.length_eq
  obtain ⟨hi, hget⟩ := List.getElem?_eq_some_iff.mp hpart
  have hcontent : i < r.content.length := by omega
  have hthis := List.Forall₂.get hall hi hcontent
  obtain ⟨own, hown, hconverted⟩ := hthis
  have hsame : own = part := by
    rw [List.get_eq_getElem, hget] at hown
    exact (Option.some.inj hown).symm
  subst hsame
  exact ⟨_, List.getElem?_eq_getElem hcontent, partToContent_converted hconverted⟩

/-- A rewrite keeps every part exactly when each of them survives. -/
theorem Rewritten.keepsParts_iff (hr : Rewritten sha256 s hash r)
    (haddressed : s.Addressed sha256) (hseparates : sha256.Separates r.contents) :
    r.KeepsParts ↔ r.PartsSurvive sha256 := by
  unfold Rewrite.KeepsParts Rewrite.PartsSurvive
  rw [hr.old]
  constructor
  · intro hkeeps i part content hpart hcontent
    obtain ⟨own, hown, hconverted⟩ := hr.converted_at hpart
    rw [hcontent] at hown
    cases hown
    obtain ⟨held, hheld, hrepresents⟩ := hkeeps i part hpart
    rw [hr.held haddressed hseparates hcontent] at hheld
    cases hheld
    exact (hconverted.represents_iff hr.canonical hcontent hash).mp hrepresents
  · intro hsurvive i part hpart
    obtain ⟨content, hcontent, hconverted⟩ := hr.converted_at hpart
    exact ⟨_, hr.held haddressed hseparates hcontent,
      (hconverted.represents_iff hr.canonical hcontent hash).mpr
        (hsurvive i part content hpart hcontent)⟩

/-! ## References -/

theorem encodeEnvelope_length {parts : List ContentPart}
    {records : List (List (String × String))} {blobs : List BlobObject}
    (h : encodeEnvelope sha256 parts = some (records, blobs)) : records.length = parts.length := by
  induction parts generalizing records blobs with
  | nil =>
    cases h
    rfl
  | cons first rest ih =>
    simp only [encodeEnvelope, Option.bind_eq_bind, Option.bind_eq_some_iff] at h
    obtain ⟨⟨fields, own⟩, -, ⟨later, more⟩, hrest, hout⟩ := h
    cases hout
    rw [List.length_cons, List.length_cons, ih hrest]

theorem Rewritten.entry_at (hr : Rewritten sha256 s hash r) {i : Nat} {content : ContentPart}
    (hcontent : r.content[i]? = some content) : ∃ part, r.entries[i]? = some (some part) := by
  have hall := partsToContent_ok hr.converted
  have hlength := hall.length_eq
  obtain ⟨hi, -⟩ := List.getElem?_eq_some_iff.mp hcontent
  have hentry : i < r.entries.length := by omega
  obtain ⟨part, hpart, -⟩ := List.Forall₂.get hall hentry hi
  rw [List.get_eq_getElem] at hpart
  exact ⟨part, by rw [List.getElem?_eq_getElem hentry, hpart]⟩

/-- The new content does not name the old envelope. -/
theorem Rewritten.canonical_unnamed (hr : Rewritten sha256 s hash r)
    (hsurvive : r.PartsSurvive sha256) (hunnamed : r.Unnamed) :
    ¬ Names r.canonical.bytes hash := by
  rintro ⟨i, entry, hentry, hhash⟩
  cases hraw : isRaw r.content with
  | true =>
    obtain ⟨lone, hlone, hbytes⟩ := canonicalizeContent_of_raw sha256 hr.canonical hraw
    have hparts := hunnamed.parts lone (by rw [hlone]; exact List.mem_cons_self)
    rw [← canonicalizePart_eq hbytes, hr.old] at hparts
    exact hparts ⟨i, entry, hentry, hhash⟩
  | false =>
    have henvelope := canonicalizeContent_of_not_raw sha256 hr.canonical hraw
    obtain ⟨⟨records, blobs⟩, hencoded, hout⟩ := Option.map_eq_some_iff.mp henvelope
    rw [← hout, entryAt_stringifyRecords] at hentry
    obtain ⟨own, hown, hread⟩ := Option.map_eq_some_iff.mp hentry
    obtain ⟨hi, -⟩ := List.getElem?_eq_some_iff.mp hown
    rw [encodeEnvelope_length hencoded] at hi
    have hcontent : r.content[i]? = some r.content[i] := List.getElem?_eq_getElem hi
    obtain ⟨record, mine, hrecord, hat, -⟩ :=
      encodeEnvelope_getElem sha256 hencoded i _ hcontent
    rw [hown] at hat
    cases hat
    obtain ⟨-, -, hshape⟩ | ⟨bytes, -, -, -, -, hshape⟩ |
      ⟨bytes, hresolved, hpart, hinline, -, hshape⟩ := encodeEnvelopePart_cases sha256 hrecord
    · rw [← hread, hshape] at hhash
      cases hhash
    · rw [← hread, hshape] at hhash
      cases hhash
    · rw [← hread, hshape, storedPartContentHash_hex] at hhash
      obtain ⟨part, hentryAt⟩ := hr.entry_at hcontent
      have hsurvives := hsurvive i part _ hentryAt hcontent
      have hpointer : ∀ locator, r.content[i].content ≠ .pointer locator := by
        intro locator hcontent
        unfold canonicalizePart at hpart
        rw [hcontent] at hpart
        cases hpart
      obtain ⟨own, hownAt, hconverted⟩ := hr.converted_at hentryAt
      rw [hcontent] at hownAt
      cases hownAt
      have hmoved := ((hconverted.written hpointer).survives_iff.mp hsurvives).2.2.1
      rw [hraw, hinline, hr.old, ← canonicalizePart_eq hpart, Option.some.inj hhash] at hmoved
      simp at hmoved

/-- A rewrite whose parts survive deletes nothing that is still referred to, unless another
envelope names the one that goes. -/
theorem Rewritten.keepsReferences (hr : Rewritten sha256 s hash r)
    (haddressed : s.Addressed sha256) (hseparates : sha256.Separates r.contents)
    (hsurvive : r.PartsSurvive sha256) (hunnamed : r.Unnamed) : r.KeepsReferences := by
  intro key hbefore hrefers
  rw [hr.before] at hbefore
  by_cases hkey : key = hash
  · subst hkey
    exfalso
    obtain ⟨event, hevent, own, hown, hreason⟩ := hrefers
    rw [hr.after, replaceContent_events] at hevent
    obtain ⟨former, hformer, rfl⟩ := List.mem_map.mp hevent
    have hcanonical := hr.canonical_unnamed hsurvive hunnamed
    -- the event named the old envelope, or it still names what it named
    have hown' : own = r.canonical.hash ∨ former.contentHash = some own ∧ own ≠ key := by
      by_cases hmoved : former.contentHash = some key
      · rw [if_pos hmoved] at hown
        exact .inl (Option.some.inj hown).symm
      · rw [if_neg hmoved] at hown
        exact .inr ⟨hown, fun hsame => hmoved (hsame ▸ hown)⟩
    rcases hreason with hsame | ⟨hkind, blob, hblob, hnames⟩
    · rcases hown' with hnew | ⟨-, hother⟩
      · exact hr.moved (hnew.symm.trans hsame)
      · exact hother hsame
    · have hdigest := hr.digest haddressed blob ⟨own, hblob⟩
      have hkeyed : blob.hash = own := (Table.get?_eq_some.mp hblob).2
      have hnotCanonical : own ≠ r.canonical.hash := by
        intro hnew
        have hsame : blob.bytes = r.canonical.bytes := by
          apply hseparates _ hdigest.2
          · exact List.mem_append_right _ List.mem_cons_self
          · rw [← hdigest.1, hkeyed, hnew, canonicalizeContent_hash sha256 hr.canonical]
        rw [hsame] at hnames
        exact hcanonical hnames
      obtain ⟨hformerOwn, hother⟩ := hown'.resolve_left hnotCanonical
      rw [hr.after, get?_replaceContent, if_neg hother] at hblob
      cases hstored : s.blobs.get? own with
      | some stored =>
        rw [hstored] at hblob
        cases hblob
        obtain ⟨row, hrow⟩ :=
          Option.isSome_iff_exists.mp (haddressed.registered former hformer own hformerOwn)
        have hbeforeKind : s.isEnvelope own := by
          unfold Stores.isEnvelope at hkind ⊢
          rw [hr.after, replaceContent_row hrow hother] at hkind
          rw [hrow]
          exact hkind
        have hnever := hunnamed.events
        rw [hr.before, hr.old] at hnever
        exact hnever former hformer own hformerOwn hother hbeforeKind blob hstored hnames
      | none =>
        rw [hstored] at hblob
        have hitem : blob ∈ blobsForCanonical r.canonical :=
          List.mem_of_find?_eq_some (by simpa using hblob)
        have hwritten := (blobsForCanonical_digest sha256 hr.canonical blob hitem).2
        rcases List.mem_cons.mp hwritten with hsame | hpart
        · rw [hsame] at hnames
          exact hcanonical hnames
        · obtain ⟨content, hcontent, hbytes⟩ := List.mem_filterMap.mp hpart
          have hnever := hunnamed.parts content hcontent
          rw [← canonicalizePart_eq hbytes, hr.old] at hnever
          exact hnever hnames
  · rw [hr.after, get?_replaceContent, if_neg hkey]
    obtain ⟨blob, hblob⟩ := Option.isSome_iff_exists.mp hbefore
    rw [hblob]
    rfl

/-! ## The run -/

theorem Rewritten.addressed (hr : Rewritten sha256 s hash r) (haddressed : s.Addressed sha256) :
    r.after.Addressed sha256 where
  digest blob hblob := (hr.digest haddressed blob ⟨_, Table.get?_key hblob⟩).1
  registered := by
    intro event hevent own hown
    rw [hr.after] at hevent ⊢
    rw [replaceContent_events] at hevent
    obtain ⟨former, hformer, rfl⟩ := List.mem_map.mp hevent
    by_cases hmoved : former.contentHash = some hash
    · rw [if_pos hmoved] at hown
      cases hown
      exact replaceContent_new s hr.moved
    · rw [if_neg hmoved] at hown
      obtain ⟨row, hrow⟩ :=
        Option.isSome_iff_exists.mp (haddressed.registered former hformer own hown)
      have hother : own ≠ hash := by
        intro hsame
        exact hmoved (hsame ▸ hown)
      rw [replaceContent_row hrow hother]
      rfl

/-- Every rewrite a run counts was made from sound stores. -/
structure CompactRun.Good (sha256 : Sha256) (run : CompactRun) : Prop where
  stores : run.stores.Addressed sha256
  rewrites : ∀ r ∈ run.rewrites, ∃ s hash, s.Addressed sha256 ∧ Rewritten sha256 s hash r

theorem CompactRun.Good.note {metas : String → Option BlobRecord} {run : CompactRun}
    {visit : Visit} (h : run.Good sha256)
    (hvisit : visitHash sha256 metas run.stores hash = .ok visit) : (run.note visit).Good sha256 := by
  cases visit with
  | skipped => exact h
  | failed => exact ⟨h.stores, h.rewrites⟩
  | rewritten rewrite =>
    have hr := visitHash_rewritten sha256 hvisit
    constructor
    · exact hr.addressed h.stores
    · intro r hmem
      rcases List.mem_append.mp hmem with hearlier | hthis
      · exact h.rewrites r hearlier
      · rw [List.mem_singleton.mp hthis]
        exact ⟨run.stores, hash, h.stores, hr⟩

theorem compactHashes_good {metas : String → Option BlobRecord} {stops : Nat → Bool → Bool}
    (hashes : List String) (index : Nat) {run : CompactRun} (h : run.Good sha256) :
    (compactHashes sha256 metas stops index hashes run).1.Good sha256 := by
  induction hashes generalizing index run with
  | nil => exact h
  | cons hash rest ih =>
    unfold compactHashes
    split
    · exact h
    · split
      · exact h
      · next visit hvisit => exact ih (index + 1) (h.note hvisit)

/-- An attachment with its bytes inside. -/
def plainEnvelope : String :=
  "[\x7b\"role\":\"attachment\",\"media_type\":\"image/png\",\"bytes_base64\":\"iVBO\"\x7d]"

/-- An attachment with its bytes inside and a locator beside them. -/
def pointedEnvelope : String :=
  "[\x7b\"role\":\"attachment\",\"media_type\":\"image/png\",\"bytes_base64\":\"iVBO\"," ++
    "\"external_locator\":\"x\"\x7d]"

def plainHash : String := "bb445eaba891cab92f44c3a5167b8794d7d35473b0133ea8d09515362d47a4e3"

def pointedHash : String := "8d031e028073287211e66e780da68b60753e8ea76a9aae30eb1a392e88f258c6"

def pngHash : String := "449ba17f2a44989a58050282f82fec8663b84f57a6a443d3750033a0c02f8be9"

/-- The digests of the attachment and of both envelopes. -/
def envelopeDigests : Sha256 :=
  .ofDigests
    [([0x89, 0x50, 0x4E], pngHash), (utf8Encode plainEnvelope, plainHash),
     (utf8Encode pointedEnvelope, pointedHash)]

/-- One event whose content is an envelope. -/
def storesWith (hash envelope : String) : Stores where
  authority :=
    { events := ⟨[{ orgId := "o", source := "s", externalId := "e", id := "1",
                     operation := .create, contentHash := some hash }], by simp⟩
      blobs := ⟨[⟨hash, contentPartsMediaType, 0⟩], by simp⟩ }
  blobs := ⟨[⟨hash, utf8Encode envelope, contentPartsMediaType⟩], by simp⟩

theorem storesWith_addressed {hash envelope : String}
    (hdigest : hash = envelopeDigests.hex (utf8Encode envelope)) :
    (storesWith hash envelope).Addressed envelopeDigests where
  digest blob hblob := by
    have hsame : blob = ⟨hash, utf8Encode envelope, contentPartsMediaType⟩ :=
      List.mem_singleton.mp hblob
    rw [hsame]
    exact hdigest
  registered event hevent own hown := by
    have hsame := List.mem_singleton.mp hevent
    rw [hsame] at hown
    cases hown
    simp [storesWith, Table.get?]

/-- A run over one envelope that can be rewritten. -/
theorem compact_storesWith {envelope : String} {entries : List (Option StoredContentPart)}
    {content : List ContentPart} {canonical : CanonicalContent} (hpresent : hash ≠ "")
    (hparse : parseStoredContentParts (utf8Encode envelope) = some entries)
    (hembedded : envelopeHasEmbeddedBytes entries = .ok true)
    (hcontent : partsToContent entries = .ok (some content))
    (hcanonical : canonicalizeContent sha256 content = some canonical)
    (hmoved : canonical.hash ≠ hash) :
    (compactEmbeddedContent sha256 (storesWith hash envelope) "o" fun _ _ => false).1.rewrites =
      [{ hash, oldBytes := utf8Encode envelope, entries, content, canonical
         before := storesWith hash envelope
         after := (storesWith hash envelope).replaceContent hash canonical }] := by
  have hhashes : contentHashes (storesWith hash envelope) "o" = [hash] := by
    simp [contentHashes, storesWith, present, Option.filter, hpresent, keepFirst]
  have hrow : (storesWith hash envelope).authority.findBlob hash =
      some ⟨hash, contentPartsMediaType, 0⟩ := by
    simp [AuthorityTables.findBlob, storesWith, hpresent, Table.get?]
  have hblob : (storesWith hash envelope).blobs.get? hash =
      some ⟨hash, utf8Encode envelope, contentPartsMediaType⟩ := by
    simp [storesWith, Table.get?]
  have hvisit : visitHash sha256 (storesWith hash envelope).authority.findBlob
      (storesWith hash envelope) hash = .ok (.rewritten
        { hash, oldBytes := utf8Encode envelope, entries, content, canonical
          before := storesWith hash envelope
          after := (storesWith hash envelope).replaceContent hash canonical }) := by
    unfold visitHash visitParts
    rw [hrow, hblob]
    simp only [Option.filter, decide_true, if_true, hparse, hembedded, hcontent, bind, Except.bind,
      hcanonical, if_neg hmoved]
    rfl
  unfold compactEmbeddedContent
  rw [hhashes]
  simp only [compactHashes, stopsBefore, Bool.false_or, Bool.and_false, Bool.false_eq_true,
    if_false, hvisit]
  rfl

def pngEntry (locator : Option String) : StoredContentPart where
  role := some "attachment"
  mediaType := some "image/png"
  bytesBase64 := some "iVBO"
  externalLocator := locator

def pngContent : List ContentPart :=
  [{ role := .attachment, mediaType := "image/png", content := .bytes [0x89, 0x50, 0x4E] }]

def pngCanonical : CanonicalContent where
  bytes := [0x89, 0x50, 0x4E]
  hash := pngHash
  mediaType := "image/png"
  blobs := []

theorem png_canonical : canonicalizeContent envelopeDigests pngContent = some pngCanonical := by
  decide +kernel

/-- The rewrite of either envelope. -/
def pngRewrite (hash envelope : String) (locator : Option String) : Rewrite where
  hash := hash
  oldBytes := utf8Encode envelope
  entries := [some (pngEntry locator)]
  content := pngContent
  canonical := pngCanonical
  before := storesWith hash envelope
  after := (storesWith hash envelope).replaceContent hash pngCanonical

/-- The digests of the envelopes and of the picture. -/
theorem envelopeDigests_known :
    plainHash = envelopeDigests.hex (utf8Encode plainEnvelope) ∧
    pointedHash = envelopeDigests.hex (utf8Encode pointedEnvelope) ∧
    envelopeDigests.hex [0x89, 0x50, 0x4E] = pngHash ∧
    pngCanonical.hash ≠ plainHash ∧ pngCanonical.hash ≠ pointedHash := by
  decide +kernel

theorem pngRewrite_separates {hash envelope : String} {locator : Option String}
    (hdigest : hash = envelopeDigests.hex (utf8Encode envelope)) (hother : hash ≠ pngHash) :
    envelopeDigests.Separates (pngRewrite hash envelope locator).contents := by
  obtain ⟨-, -, hpng, -⟩ := envelopeDigests_known
  have hcontents : ∀ x ∈ (pngRewrite hash envelope locator).contents,
      x = utf8Encode envelope ∨ x = [0x89, 0x50, 0x4E] := by
    intro x hx
    simpa [Rewrite.contents, pngRewrite, storesWith, pngCanonical, pngContent,
      canonicalizePart] using hx
  intro x hx y hy hsame
  rcases hcontents x hx with rfl | rfl <;> rcases hcontents y hy with rfl | rfl
  · rfl
  · rw [← hdigest, hpng] at hsame
    exact absurd hsame hother
  · rw [← hdigest, hpng] at hsame
    exact absurd hsame.symm hother
  · rfl

end Regenic.Ingest
