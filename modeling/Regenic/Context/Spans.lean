import Regenic.Context.Material

/-!
The spans of attachments. The text of an event and its search parts are made by two functions
over the same envelope; they agree where both take it for one. An envelope with a binary
signature has no text, and yet parts with spans; and bytes that are an envelope for one event and
plain text for another have their attachments in the text of both, and as parts of the one only.
-/

namespace Regenic.Context.Material

open Lib Ingest Assembly

variable (sha256 : Sha256) (strictText : Bool) (blobs : String → Option Bytes)

/-! ## What a text is built from -/

/-- The text of a part that is an attachment with text. -/
def textOf (part : Option StoredContentPart) : Option String :=
  (part.filter isTextAttachment).bind fun part =>
    (attachmentTextFor sha256 strictText blobs part).toOption.join

/-- The texts of the attachments of an envelope, with their positions. -/
def textsFrom : Nat → List (Option StoredContentPart) → List (Nat × String)
  | _, [] => []
  | partIndex, part :: rest =>
    ((textOf sha256 strictText blobs part).map fun text => (partIndex, text)).toList ++
      textsFrom (partIndex + 1) rest

def envelopeParts (bytes : Bytes) : List (Option StoredContentPart) :=
  (parseStoredContentParts bytes).getD []

/-- The texts of an event, if there are any. -/
def textOfPieces (texts : List String) : Option String :=
  if texts ≠ [] then some (joinTexts texts) else none

/-- The bytes of some event are read as an envelope. -/
def readAsEnvelope (events : List AuthorizedSourceEvent) (hash : String) : Bool :=
  events.any fun source =>
    present source.contentHash = some hash && source.contentMediaType = some contentPartsMediaType

/-- The attachments that the text of an event is built from, with their positions. -/
def builtFrom (events : List AuthorizedSourceEvent) (source : AuthorizedSourceEvent) :
    List (Nat × String) :=
  match (present source.contentHash).bind fun hash => (blobs hash).map fun bytes => (hash, bytes),
    present source.contentMediaType with
  | some (hash, bytes), some _ =>
    if hasBinarySignature bytes then []
    else if readAsEnvelope events hash then
      textsFrom sha256 strictText blobs 0 (envelopeParts bytes)
    else []
  | _, _ => []

/-- Where the text of a part begins and ends. -/
def LocatedSearchPart.span (part : LocatedSearchPart) : Option (Nat × Nat) :=
  match part.text, part.projectionStart with
  | some text, some start => some (start, start + unitLength text)
  | _, _ => none

/-- The search parts of an event have the spans of the texts it was built from. -/
structure SpansExact (built : List (Nat × String)) (material : MaterializedEvent) : Prop where
  sliced : ∀ part ∈ material.searchParts, ∀ text, part.text = some text →
    ∃ whole start, material.text = some whole ∧ part.projectionStart = some start ∧
      slice (utf16 whole) start (unitLength text) = utf16 text
  increasing : (material.searchParts.filterMap (·.span)).Pairwise fun left right =>
    left.2 < right.1
  complete : material.searchParts.filterMap (fun part => part.text.map fun text =>
      (part.partIndex, text)) = built.map fun entry => ((entry.1 : ℤ), entry.2)

/-! ## Attachments found again -/

variable {sha256} {strictText} {blobs}

theorem attachmentTextFor_congr {found : String → Option Bytes} {part : StoredContentPart}
    (h : ∀ hash, storedPartContentHash part = some hash → found hash = blobs hash) :
    attachmentTextFor sha256 strictText found part =
      attachmentTextFor sha256 strictText blobs part := by
  unfold attachmentTextFor
  cases hhash : storedPartContentHash part with
  | none => rfl
  | some hash => simp only [h hash hhash]

theorem textOf_of_attachment {part : StoredContentPart} (h : isTextAttachment part = true)
    {text : Option String}
    (htext : attachmentTextFor sha256 strictText blobs part = .ok text) :
    textOf sha256 strictText blobs (some part) = text := by
  unfold textOf
  rw [Option.filter_some, if_pos h, Option.bind_some, htext]
  rfl

theorem textOf_of_not {part : StoredContentPart} (h : isTextAttachment part = false) :
    textOf sha256 strictText blobs (some part) = none := by
  unfold textOf
  rw [Option.filter_some, if_neg (by rw [h]; decide)]
  rfl

/-- The text is joined of the texts of the attachments, in the order of the envelope. -/
theorem attachmentTexts_eq (partIndex : Nat) {parts : List (Option StoredContentPart)}
    {texts : List String}
    (h : attachmentTexts sha256 strictText blobs
      ((parts.filterMap id).filter isTextAttachment) = .ok texts) :
    texts = (textsFrom sha256 strictText blobs partIndex parts).map Prod.snd := by
  induction parts generalizing partIndex texts with
  | nil =>
    cases h
    rfl
  | cons part rest ih =>
    cases part with
    | none => exact ih (partIndex + 1) h
    | some part =>
      rw [textsFrom]
      cases hattachment : isTextAttachment part with
      | false =>
        have hskip : ((some part :: rest).filterMap id).filter isTextAttachment =
            (rest.filterMap id).filter isTextAttachment := by
          simp [hattachment]
        rw [hskip] at h
        rw [textOf_of_not hattachment, ih (partIndex + 1) h]
        rfl
      | true =>
        have htake : ((some part :: rest).filterMap id).filter isTextAttachment =
            part :: (rest.filterMap id).filter isTextAttachment := by
          simp [hattachment]
        rw [htake, attachmentTexts] at h
        obtain ⟨text, htext, h⟩ := sequence_ok h
        obtain ⟨others, hothers, h⟩ := sequence_ok h
        cases h
        rw [textOf_of_attachment hattachment htext, ih (partIndex + 1) hothers, List.map_append]
        cases text <;> rfl

/-! ## Parts with their spans -/

/-- The text of a part and its start. -/
def LocatedSearchPart.located (part : LocatedSearchPart) : Option (String × Nat) :=
  match part.text, part.projectionStart with
  | some text, some start => some (text, start)
  | _, _ => none

/-- What the walk over an envelope makes of the texts of its attachments. -/
structure Walked (cursor : Nat) (hasText : Bool) (built : List (Nat × String))
    (made : List LocatedSearchPart) : Prop where
  texts : made.filterMap (fun part => part.text.map fun text => (part.partIndex, text)) =
    built.map fun entry => ((entry.1 : ℤ), entry.2)
  located : made.filterMap (·.located) =
    (built.map Prod.snd).zip (starts 2 cursor hasText ((built.map Prod.snd).map utf16))
  started : ∀ part ∈ made, ∀ text, part.text = some text → ∃ start, part.projectionStart = some start

theorem Walked.skip {cursor : Nat} {hasText : Bool} {built : List (Nat × String)}
    {made : List LocatedSearchPart} (h : Walked cursor hasText built made)
    {part : LocatedSearchPart} (htext : part.text = none) :
    Walked cursor hasText built (part :: made) := by
  have hlocated : part.located = none := by
    unfold LocatedSearchPart.located
    rw [htext]
  constructor
  · rw [List.filterMap_cons_none (by rw [htext]; rfl)]
    exact h.texts
  · rw [List.filterMap_cons_none hlocated]
    exact h.located
  · intro other hother text hsome
    rcases List.mem_cons.mp hother with rfl | hmem
    · rw [htext] at hsome
      cases hsome
    · exact h.started other hmem text hsome

theorem Walked.take {cursor : Nat} {hasText : Bool} {built : List (Nat × String)}
    {made : List LocatedSearchPart} {text : String} {partIndex : Nat}
    (h : Walked ((cursor + if hasText then 2 else 0) + unitLength text) true built made)
    {part : LocatedSearchPart} (hindex : part.partIndex = partIndex)
    (htext : part.text = some text)
    (hstart : part.projectionStart = some (cursor + if hasText then 2 else 0)) :
    Walked cursor hasText ((partIndex, text) :: built) (part :: made) := by
  have hlocated : part.located = some (text, cursor + if hasText then 2 else 0) := by
    unfold LocatedSearchPart.located
    rw [htext, hstart]
  constructor
  · rw [List.filterMap_cons_some (by rw [htext]; rfl), h.texts, hindex, List.map_cons]
  · rw [List.filterMap_cons_some hlocated, h.located]
    rfl
  · intro other hother found hsome
    rcases List.mem_cons.mp hother with rfl | hmem
    · exact ⟨_, hstart⟩
    · exact h.started other hmem found hsome

theorem walked_of_searchPartsFrom {partIndex cursor : Nat} {hasText : Bool}
    {parts : List (Option StoredContentPart)} {made : List LocatedSearchPart}
    (h : searchPartsFrom sha256 strictText blobs partIndex cursor hasText parts = .ok made) :
    Walked cursor hasText (textsFrom sha256 strictText blobs partIndex parts) made := by
  induction parts generalizing partIndex cursor hasText made with
  | nil =>
    cases h
    constructor
    · rfl
    · rfl
    · intro part hpart
      cases hpart
  | cons part rest ih =>
    cases part with
    | none => cases h
    | some part =>
      rw [searchPartsFrom] at h
      rw [textsFrom]
      by_cases hrole : part.role ≠ some "attachment"
      · have hattachment : isTextAttachment part = false := by
          unfold isTextAttachment
          rw [decide_eq_false hrole, Bool.false_and]
        rw [if_pos hrole] at h
        rw [textOf_of_not hattachment]
        exact ih h
      · rw [if_neg hrole] at h
        obtain ⟨text, htext, h⟩ := sequence_ok h
        have hhere : textOf sha256 strictText blobs (some part) = text := by
          unfold textOfPart at htext
          cases hattachment : isTextAttachment part with
          | false =>
            rw [if_neg (by rw [hattachment]; decide)] at htext
            cases htext
            exact textOf_of_not hattachment
          | true =>
            rw [if_pos hattachment] at htext
            exact textOf_of_attachment hattachment htext
        rw [hhere]
        cases text with
        | none =>
          obtain ⟨others, hothers, h⟩ := sequence_ok h
          cases h
          exact (ih hothers).skip rfl
        | some text =>
          obtain ⟨others, hothers, h⟩ := sequence_ok h
          cases h
          exact (ih hothers).take rfl rfl rfl

/-! ## Joined texts -/

theorem utf16_joinTexts (texts : List String) :
    utf16 (joinTexts texts) = joined (utf16 "\n\n") (texts.map utf16) := by
  have hjoined : ∀ pieces : List (List Char), ∀ f : Char → CodeUnits,
      (joined ['\n', '\n'] pieces).flatMap f =
        joined (['\n', '\n'].flatMap f) (pieces.map fun piece => piece.flatMap f) := by
    intro pieces f
    induction pieces with
    | nil => rfl
    | cons piece rest ih =>
      cases rest with
      | nil => rfl
      | cons next rest =>
        rw [joined, List.flatMap_append, List.flatMap_append, ih]
        rfl
  unfold joinTexts utf16
  rw [String.toList_ofList, hjoined, List.map_map]
  rfl

/-- An event whose search parts are made after its text has the spans of that text. -/
theorem spans_of_joined {body : Option String} {built : List (Nat × String)}
    {material : MaterializedEvent}
    (hwalked : Walked ((body.map unitLength).getD 0) body.isSome built material.searchParts)
    (htext : material.text = textOfPieces (body.toList ++ built.map Prod.snd)) :
    SpansExact built material := by
  unfold textOfPieces at htext
  have hcounted : Counted (utf16 "\n\n") (body.toList.map utf16)
      ((body.map unitLength).getD 0) body.isSome := by
    cases body with
    | none => exact counted_nil _
    | some text => exact counted_single _ _
  have hwidth : (utf16 "\n\n").length = 2 := rfl
  have hslices := slice_starts hcounted ((built.map Prod.snd).map utf16)
  rw [hwidth] at hslices
  have hspans : material.searchParts.filterMap (·.span) =
      ((built.map Prod.snd).zip (starts 2 ((body.map unitLength).getD 0) body.isSome
        ((built.map Prod.snd).map utf16))).map fun entry =>
          (entry.2, entry.2 + unitLength entry.1) := by
    rw [← hwalked.located, List.map_filterMap]
    congr 1
    funext part
    unfold LocatedSearchPart.span LocatedSearchPart.located
    cases part.text with
    | none => rfl
    | some text => cases part.projectionStart <;> rfl
  constructor
  · intro part hpart text hsome
    obtain ⟨start, hstart⟩ := hwalked.started part hpart text hsome
    have hlocated : part.located = some (text, start) := by
      unfold LocatedSearchPart.located
      rw [hsome, hstart]
    have hmem : (text, start) ∈ material.searchParts.filterMap (·.located) :=
      List.mem_filterMap.mpr ⟨part, hpart, hlocated⟩
    rw [hwalked.located] at hmem
    have hbuilt : text ∈ built.map Prod.snd := (List.of_mem_zip hmem).1
    have hne : body.toList ++ built.map Prod.snd ≠ [] :=
      List.append_ne_nil_of_right_ne_nil _ (List.ne_nil_of_mem hbuilt)
    refine ⟨_, start, by rw [htext, if_pos hne], hstart, ?_⟩
    have hentry : (utf16 text, start) ∈ ((built.map Prod.snd).map utf16).zip
        (starts 2 ((body.map unitLength).getD 0) body.isSome
          ((built.map Prod.snd).map utf16)) := by
      rw [List.zip_map_left]
      exact List.mem_map_of_mem hmem
    rw [utf16_joinTexts, List.map_append]
    exact hslices _ hentry
  · rw [hspans, List.pairwise_map]
    have hordered := pairwise_starts Nat.two_pos ((body.map unitLength).getD 0) body.isSome
      ((built.map Prod.snd).map utf16)
    rw [List.zip_map_left, List.pairwise_map] at hordered
    exact hordered
  · exact hwalked.texts

/-! ## The attachments of the events of one content -/

/-- The text attachments of an envelope. -/
def envelopeAttachments (bytes : Bytes) : List StoredContentPart :=
  ((envelopeParts bytes).filterMap id).filter isTextAttachment

/-- The text attachments of the stored bytes of a hash, if some event reads them as an envelope. -/
def attachmentsRead (bodies : String → Option Bytes) (events : List AuthorizedSourceEvent)
    (hash : String) : List StoredContentPart :=
  if readAsEnvelope events hash then envelopeAttachments ((bodies hash).getD []) else []

/-- The event reads the bytes of the hash as an envelope. -/
def ReadsEnvelope (source : AuthorizedSourceEvent) (hash : String) : Prop :=
  present source.contentHash = some hash ∧ source.contentMediaType = some contentPartsMediaType

theorem readAsEnvelope_append (events : List AuthorizedSourceEvent)
    (source : AuthorizedSourceEvent) (hash : String) :
    readAsEnvelope (events ++ [source]) hash = true ↔
      readAsEnvelope events hash = true ∨ ReadsEnvelope source hash := by
  unfold readAsEnvelope ReadsEnvelope
  rw [List.any_append, List.any_cons, List.any_nil, Bool.or_false, Bool.or_eq_true,
    Bool.and_eq_true, decide_eq_true_eq, decide_eq_true_eq]

theorem attachmentsRead_append_of_reads {bodies : String → Option Bytes}
    {events : List AuthorizedSourceEvent} {source : AuthorizedSourceEvent} {hash : String}
    (h : ReadsEnvelope source hash) :
    attachmentsRead bodies (events ++ [source]) hash =
      envelopeAttachments ((bodies hash).getD []) := by
  unfold attachmentsRead
  rw [if_pos ((readAsEnvelope_append events source hash).mpr (.inr h))]

theorem attachmentsRead_append_of_not {bodies : String → Option Bytes}
    {events : List AuthorizedSourceEvent} {source : AuthorizedSourceEvent} {hash : String}
    (h : ¬ ReadsEnvelope source hash) :
    attachmentsRead bodies (events ++ [source]) hash = attachmentsRead bodies events hash := by
  unfold attachmentsRead
  simp only [readAsEnvelope_append, h, or_false]

theorem filterMap_of_readParts {parts : List (Option StoredContentPart)}
    {found : List StoredContentPart} (h : liftIngest (readParts parts) = .ok found) :
    found = parts.filterMap id := by
  unfold readParts liftIngest at h
  split at h
  · next heq =>
    split at heq
    · cases heq
      cases h
      rfl
    · cases heq
  · cases h

/-- What is left of the attachments of one content when none are put. -/
theorem attachmentsRead_of_nil {bodies : String → Option Bytes}
    {events : List AuthorizedSourceEvent} {hash : String}
    (h : envelopeAttachments ((bodies hash).getD []) = []) :
    attachmentsRead bodies events hash = [] := by
  unfold attachmentsRead
  rw [h, ite_self]

theorem collectAttachments_read {bodies : String → Option Bytes}
    {done : List AuthorizedSourceEvent} {collected next : Table TextAttachments.contentHash}
    {source : AuthorizedSourceEvent}
    (h : ∀ hash, attachmentsOf collected hash = attachmentsRead bodies done hash)
    (hbodies : ∀ hash, present source.contentHash = some hash → (bodies hash).isSome = true)
    (hstep : collectAttachments true bodies collected source = .ok next) (hash : String) :
    attachmentsOf next hash = attachmentsRead bodies (done ++ [source]) hash := by
  unfold collectAttachments at hstep
  cases hhash : present source.contentHash with
  | none =>
    have hnot : ¬ ReadsEnvelope source hash := fun hreads => by cases hhash.symm.trans hreads.1
    simp only [hhash, Option.bind_none] at hstep
    cases hstep
    rw [h, attachmentsRead_append_of_not hnot]
  | some key =>
    obtain ⟨bytes, hbytes⟩ := Option.isSome_iff_exists.mp (hbodies key hhash)
    simp only [hhash, Option.bind_some, hbytes, Option.map_some] at hstep
    by_cases hmedia : source.contentMediaType = some contentPartsMediaType
    · rw [if_neg (not_not.mpr hmedia)] at hstep
      have hput : (next = collected ∧ envelopeAttachments bytes = []) ∨
          next = collected.put ⟨key, envelopeAttachments bytes⟩ := by
        unfold envelopeAttachments envelopeParts
        cases hparse : parseStoredContentParts bytes with
        | none =>
          simp only [hparse] at hstep
          cases hstep
          exact .inl ⟨rfl, rfl⟩
        | some parts =>
          simp only [hparse, if_true] at hstep
          obtain ⟨found, hfound, hstep⟩ := sequence_ok hstep
          cases hstep
          rw [filterMap_of_readParts hfound, Option.getD_some]
          split
          · exact .inr rfl
          · next hnil => exact .inl ⟨rfl, not_not.mp hnil⟩
      by_cases hkey : key = hash
      · have hreads : ReadsEnvelope source hash := ⟨hkey ▸ hhash, hmedia⟩
        have hbody : (bodies hash).getD [] = bytes := by rw [← hkey, hbytes, Option.getD_some]
        rw [attachmentsRead_append_of_reads hreads, hbody]
        rcases hput with ⟨rfl, hnil⟩ | rfl
        · rw [h, attachmentsRead_of_nil (by rw [hbody]; exact hnil), hnil]
        · unfold attachmentsOf
          rw [Table.get?_put, if_pos hkey]
          rfl
      · have hnot : ¬ ReadsEnvelope source hash := fun hreads =>
          hkey (Option.some.inj (hhash.symm.trans hreads.1))
        rw [attachmentsRead_append_of_not hnot, ← h]
        rcases hput with ⟨rfl, -⟩ | rfl
        · rfl
        · unfold attachmentsOf
          rw [Table.get?_put, if_neg hkey]
    · have hnot : ¬ ReadsEnvelope source hash := fun hreads => hmedia hreads.2
      rw [if_pos hmedia] at hstep
      cases hstep
      rw [h, attachmentsRead_append_of_not hnot]

theorem foldlM_collect_read {bodies : String → Option Bytes}
    {done events : List AuthorizedSourceEvent}
    {collected final : Table TextAttachments.contentHash}
    (h : ∀ hash, attachmentsOf collected hash = attachmentsRead bodies done hash)
    (hbodies : ∀ source ∈ events, ∀ hash, present source.contentHash = some hash →
      (bodies hash).isSome = true)
    (hrun : events.foldlM (collectAttachments true bodies) collected = .ok final)
    (hash : String) :
    attachmentsOf final hash = attachmentsRead bodies (done ++ events) hash := by
  induction events generalizing done collected with
  | nil =>
    cases hrun
    rw [List.append_nil, h]
  | cons source rest ih =>
    rw [List.foldlM_cons] at hrun
    obtain ⟨next, hstep, hrun⟩ := sequence_ok hrun
    have hnext := collectAttachments_read h (hbodies source List.mem_cons_self) hstep
    have hrest := ih hnext (fun other hother => hbodies other (List.mem_cons_of_mem _ hother)) hrun
    rwa [List.append_assoc, List.singleton_append] at hrest

/-! ## Events -/

variable (sha256) (strictText) (blobs) in
/-- Where some event reads the bytes of this one as an envelope whose attachments have text, this
one does so too, unless the bytes have a binary signature, and then it does not. -/
def SpansAgree (events : List AuthorizedSourceEvent) (source : AuthorizedSourceEvent) : Prop :=
  ∀ hash bytes mediaType, present source.contentHash = some hash → blobs hash = some bytes →
    present source.contentMediaType = some mediaType → readAsEnvelope events hash = true →
    textsFrom sha256 strictText blobs 0 (envelopeParts bytes) ≠ [] →
      (hasBinarySignature bytes = false ↔ mediaType = contentPartsMediaType)

theorem textsFrom_congr {found : String → Option Bytes} (partIndex : Nat)
    {parts : List (Option StoredContentPart)}
    (h : ∀ part ∈ (parts.filterMap id).filter isTextAttachment, ∀ hash,
      storedPartContentHash part = some hash → found hash = blobs hash) :
    textsFrom sha256 strictText found partIndex parts =
      textsFrom sha256 strictText blobs partIndex parts := by
  induction parts generalizing partIndex with
  | nil => rfl
  | cons part rest ih =>
    rw [textsFrom, textsFrom]
    cases part with
    | none =>
      rw [ih (partIndex + 1) h]
      rfl
    | some part =>
      have hrest := ih (partIndex + 1) fun other hother => h other (by
        obtain ⟨hmem, hattachment⟩ := List.mem_filter.mp hother
        exact List.mem_filter.mpr ⟨List.mem_cons_of_mem _ hmem, hattachment⟩)
      rw [hrest]
      cases hattachment : isTextAttachment part with
      | false => rw [textOf_of_not hattachment, textOf_of_not hattachment]
      | true =>
        have hmem : part ∈ ((some part :: rest).filterMap id).filter isTextAttachment :=
          List.mem_filter.mpr ⟨List.mem_cons_self, hattachment⟩
        have hsame : attachmentTextFor sha256 strictText found part =
            attachmentTextFor sha256 strictText blobs part := attachmentTextFor_congr (h part hmem)
        unfold textOf
        rw [Option.filter_some, if_pos hattachment, Option.bind_some, Option.bind_some, hsame]

/-- Parts without text have the spans of nothing. -/
theorem spansExact_of_no_text {built : List (Nat × String)} {material : MaterializedEvent}
    (h : ∀ part ∈ material.searchParts, part.text = none) :
    SpansExact built material ↔ built = [] := by
  have hnone : material.searchParts.filterMap (fun part => part.text.map fun text =>
      (part.partIndex, text)) = [] := by
    apply List.filterMap_eq_nil_iff.mpr
    intro part hpart
    rw [h part hpart]
    rfl
  constructor
  · intro hexact
    have hcomplete := hexact.complete
    rw [hnone] at hcomplete
    exact List.map_eq_nil_iff.mp hcomplete.symm
  · rintro rfl
    constructor
    · intro part hpart text htext
      rw [h part hpart] at htext
      cases htext
    · have hspans : material.searchParts.filterMap (·.span) = [] := by
        apply List.filterMap_eq_nil_iff.mpr
        intro part hpart
        unfold LocatedSearchPart.span
        rw [h part hpart]
      rw [hspans]
      exact List.Pairwise.nil
    · rw [hnone]
      rfl

theorem no_text_of_walked {cursor : Nat} {hasText : Bool} {made : List LocatedSearchPart}
    (h : Walked cursor hasText [] made) : ∀ part ∈ made, part.text = none := by
  intro part hpart
  have hnone := List.filterMap_eq_nil_iff.mp h.texts part hpart
  exact Option.map_eq_none_iff.mp hnone

/-- What the first two reads of the blobs leave for each event. -/
structure Fetched (blobs : String → Option Bytes) (events : List AuthorizedSourceEvent)
    (bodies attachmentBlobs : String → Option Bytes)
    (textAttachments : Table TextAttachments.contentHash) : Prop where
  found : ∀ source ∈ events, ∀ hash, present source.contentHash = some hash →
    bodies hash = blobs hash
  read : ∀ hash, attachmentsOf textAttachments hash = attachmentsRead bodies events hash
  attached : ∀ hash, ∀ part ∈ attachmentsOf textAttachments hash, ∀ stored,
    storedPartContentHash part = some stored → attachmentBlobs stored = blobs stored

theorem fetched_of_materialize {events : List AuthorizedSourceEvent}
    {materials : List MaterializedEvent}
    (h : materialize sha256 strictText blobs events = .ok materials) :
    ∃ bodies attachmentBlobs textAttachments,
      Fetched blobs events bodies attachmentBlobs textAttachments ∧
        events.mapM (materializeEvent sha256 strictText true bodies attachmentBlobs
          textAttachments) = .ok materials := by
  unfold materialize materializeStored at h
  obtain ⟨hfound, h⟩ := checked_ok h
  obtain ⟨textAttachments, hcollected, h⟩ := sequence_ok h
  obtain ⟨-, h⟩ := checked_ok h
  refine ⟨_, _, textAttachments, ⟨?_, ?_, ?_⟩, h⟩
  · intro source hsource hash hhash
    unfold getMany
    rw [if_pos (mem_keepFirst_id.mpr (List.mem_filterMap.mpr ⟨source, hsource, hhash⟩))]
  · have hstart : ∀ key, attachmentsOf (∅ : Table TextAttachments.contentHash) key =
        attachmentsRead (getMany blobs (keepFirst id
          (events.filterMap fun source => present source.contentHash))) [] key := fun _ => rfl
    apply foldlM_collect_read hstart _ hcollected
    intro source hsource key hkey
    exact List.all_eq_true.mp hfound key
      (mem_keepFirst_id.mpr (List.mem_filterMap.mpr ⟨source, hsource, hkey⟩))
  · intro hash part hpart found hstored
    unfold attachmentsOf at hpart
    cases hentry : textAttachments.get? hash with
    | none =>
      rw [hentry] at hpart
      cases hpart
    | some entry =>
      rw [hentry] at hpart
      unfold getMany
      rw [if_pos]
      apply mem_keepFirst_id.mpr
      apply List.mem_flatMap.mpr
      exact ⟨entry, (Table.get?_eq_some.mp hentry).1, List.mem_filterMap.mpr ⟨part, hpart, hstored⟩⟩

theorem made_of_materializeEvent {bodies attachmentBlobs : String → Option Bytes}
    {textAttachments : Table TextAttachments.contentHash} {source : AuthorizedSourceEvent}
    {material : MaterializedEvent} {hash mediaType : String} {bytes : Bytes}
    (h : materializeEvent sha256 strictText true bodies attachmentBlobs textAttachments source =
      .ok material)
    (hhash : present source.contentHash = some hash) (hbytes : bodies hash = some bytes)
    (hmedia : present source.contentMediaType = some mediaType) :
    materializedText sha256 strictText bytes mediaType (attachmentsOf textAttachments hash)
        attachmentBlobs = .ok material.text ∧
      searchPartsOf sha256 strictText bytes mediaType hash attachmentBlobs =
        .ok material.searchParts := by
  unfold materializeEvent at h
  simp only [hhash, Option.bind_some, hbytes, Option.map_some, hmedia] at h
  obtain ⟨_, -, h⟩ := sequence_ok h
  obtain ⟨text, htext, h⟩ := sequence_ok h
  rw [if_pos trivial] at h
  obtain ⟨searchParts, hparts, h⟩ := sequence_ok h
  obtain ⟨searchBody, -, h⟩ := sequence_ok h
  cases h
  exact ⟨htext, hparts⟩

/-- The text of an event is a body, if there is one, and the texts it was built from. -/
def TextBuilt (built : List (Nat × String)) (material : MaterializedEvent) : Prop :=
  ∃ body : Option String, material.text = textOfPieces (body.toList ++ built.map Prod.snd)

theorem text_of_read {events : List AuthorizedSourceEvent}
    {bodies attachmentBlobs : String → Option Bytes}
    {textAttachments : Table TextAttachments.contentHash} {bytes : Bytes} {hash mediaType : String}
    {text : Option String}
    (hfetched : Fetched blobs events bodies attachmentBlobs textAttachments)
    (hbody : bodies hash = some bytes)
    (h : materializedText sha256 strictText bytes mediaType (attachmentsOf textAttachments hash)
      attachmentBlobs = .ok text) :
    ∃ body : Option String, text = textOfPieces (body.toList ++
      (if hasBinarySignature bytes then []
        else if readAsEnvelope events hash then
          textsFrom sha256 strictText blobs 0 (envelopeParts bytes)
        else []).map Prod.snd) := by
  unfold materializedText at h
  cases hbinary : hasBinarySignature bytes with
  | true =>
    rw [if_pos hbinary] at h
    cases h
    exact ⟨none, rfl⟩
  | false =>
    rw [if_neg (by rw [hbinary]; decide)] at h
    obtain ⟨body, -, h⟩ := sequence_ok h
    obtain ⟨others, hothers, h⟩ := sequence_ok h
    have hjoined : text = textOfPieces (body.toList ++ others) := (Except.ok.inj h).symm
    refine ⟨body, ?_⟩
    rw [hjoined, if_neg Bool.false_ne_true]
    have hread := hfetched.read hash
    unfold attachmentsRead at hread
    rw [hbody, Option.getD_some] at hread
    cases henvelope : readAsEnvelope events hash with
    | false =>
      rw [henvelope, if_neg (by decide)] at hread
      rw [hread] at hothers
      cases hothers
      rw [if_neg Bool.false_ne_true]
      rfl
    | true =>
      rw [henvelope, if_pos rfl] at hread
      rw [hread] at hothers
      rw [attachmentTexts_eq 0 hothers, textsFrom_congr 0 (hread ▸ hfetched.attached hash),
        if_pos rfl]

/-- The bytes, with their hash and their media type, that an event is made of. -/
def Reads (blobs : String → Option Bytes) (source : AuthorizedSourceEvent)
    (hash mediaType : String) (bytes : Bytes) : Prop :=
  present source.contentHash = some hash ∧ blobs hash = some bytes ∧
    present source.contentMediaType = some mediaType

/-- An event with no stored bytes, or with no media type, has no text and no parts. -/
theorem material_of_unread {bodies attachmentBlobs : String → Option Bytes}
    {textAttachments : Table TextAttachments.contentHash} {source : AuthorizedSourceEvent}
    {material : MaterializedEvent}
    (h : materializeEvent sha256 strictText true bodies attachmentBlobs textAttachments source =
      .ok material)
    (hunread : ∀ hash mediaType bytes, ¬ Reads bodies source hash mediaType bytes) :
    material.text = none ∧ material.searchParts = [] := by
  unfold materializeEvent at h
  split at h
  · cases h
    exact ⟨rfl, rfl⟩
  · next hash bytes hfound =>
    obtain ⟨key, hkey, hmapped⟩ := Option.bind_eq_some_iff.mp hfound
    obtain ⟨found, hbytes, -⟩ := Option.map_eq_some_iff.mp hmapped
    obtain ⟨_, -, h⟩ := sequence_ok h
    cases hmedia : present source.contentMediaType with
    | some mediaType => exact absurd ⟨hkey, hbytes, hmedia⟩ (hunread key mediaType found)
    | none =>
      simp only [hmedia] at h
      cases h
      exact ⟨rfl, rfl⟩

theorem builtFrom_of_unread {events : List AuthorizedSourceEvent} {source : AuthorizedSourceEvent}
    (hunread : ∀ hash mediaType bytes, ¬ Reads blobs source hash mediaType bytes) :
    builtFrom sha256 strictText blobs events source = [] := by
  unfold builtFrom
  split
  · next hash bytes mediaType hfound hmedia =>
    obtain ⟨key, hkey, hmapped⟩ := Option.bind_eq_some_iff.mp hfound
    obtain ⟨found, hbytes, -⟩ := Option.map_eq_some_iff.mp hmapped
    exact absurd ⟨hkey, hbytes, hmedia⟩ (hunread key mediaType found)
  · rfl

theorem builtFrom_of_read {events : List AuthorizedSourceEvent} {source : AuthorizedSourceEvent}
    {hash mediaType : String} {bytes : Bytes} (hhash : present source.contentHash = some hash)
    (hbytes : blobs hash = some bytes) (hmedia : present source.contentMediaType = some mediaType) :
    builtFrom sha256 strictText blobs events source =
      if hasBinarySignature bytes then []
      else if readAsEnvelope events hash then
        textsFrom sha256 strictText blobs 0 (envelopeParts bytes)
      else [] := by
  unfold builtFrom
  simp only [hhash, hbytes, hmedia, Option.bind_some, Option.map_some]

theorem spansAgree_of_read {events : List AuthorizedSourceEvent} {source : AuthorizedSourceEvent}
    {hash mediaType : String} {bytes : Bytes} (hhash : present source.contentHash = some hash)
    (hbytes : blobs hash = some bytes) (hmedia : present source.contentMediaType = some mediaType) :
    SpansAgree sha256 strictText blobs events source ↔
      (readAsEnvelope events hash = true →
        textsFrom sha256 strictText blobs 0 (envelopeParts bytes) ≠ [] →
        (hasBinarySignature bytes = false ↔ mediaType = contentPartsMediaType)) := by
  constructor
  · exact fun h => h hash bytes mediaType hhash hbytes hmedia
  · intro h otherHash otherBytes otherType hother hotherBytes hotherType
    obtain rfl : hash = otherHash := Option.some.inj (hhash.symm.trans hother)
    obtain rfl : bytes = otherBytes := Option.some.inj (hbytes.symm.trans hotherBytes)
    obtain rfl : mediaType = otherType := Option.some.inj (hmedia.symm.trans hotherType)
    exact h

/-- The bytes of an envelope: the walk over its parts finds the texts that the text is joined of. -/
theorem spans_of_envelope {attachmentBlobs : String → Option Bytes}
    {material : MaterializedEvent} {hash : String} {bytes : Bytes}
    (hattached : ∀ part ∈ envelopeAttachments bytes, ∀ stored,
      storedPartContentHash part = some stored → attachmentBlobs stored = blobs stored)
    (htext : materializedText sha256 strictText bytes contentPartsMediaType
      (envelopeAttachments bytes) attachmentBlobs = .ok material.text)
    (hparts : searchPartsOf sha256 strictText bytes contentPartsMediaType hash attachmentBlobs =
      .ok material.searchParts) :
    SpansExact (if hasBinarySignature bytes then [] else
        textsFrom sha256 strictText blobs 0 (envelopeParts bytes)) material ↔
      (textsFrom sha256 strictText blobs 0 (envelopeParts bytes) ≠ [] →
        hasBinarySignature bytes = false) := by
  have hsame : textsFrom sha256 strictText attachmentBlobs 0 (envelopeParts bytes) =
      textsFrom sha256 strictText blobs 0 (envelopeParts bytes) := textsFrom_congr 0 hattached
  unfold searchPartsOf at hparts
  rw [if_pos rfl] at hparts
  obtain ⟨body, hbody, hparts⟩ := sequence_ok hparts
  have hwalked := walked_of_searchPartsFrom hparts
  change Walked _ _ (textsFrom sha256 strictText attachmentBlobs 0 (envelopeParts bytes)) _
    at hwalked
  rw [hsame] at hwalked
  cases hbinary : hasBinarySignature bytes with
  | true =>
    rw [if_pos rfl]
    constructor
    · intro hexact hsome
      have hcomplete := hexact.complete
      rw [hwalked.texts] at hcomplete
      exact absurd (List.map_eq_nil_iff.mp hcomplete) hsome
    · intro hnone
      have hnil : textsFrom sha256 strictText blobs 0 (envelopeParts bytes) = [] := by
        by_contra hsome
        cases hnone hsome
      rw [hnil] at hwalked
      exact (spansExact_of_no_text (no_text_of_walked hwalked)).mpr rfl
  | false =>
    rw [if_neg (by decide)]
    refine iff_of_true ?_ fun _ => rfl
    apply spans_of_joined hwalked
    unfold materializedText at htext
    rw [if_neg (by rw [hbinary]; decide)] at htext
    obtain ⟨found, hfound, htext⟩ := sequence_ok htext
    obtain rfl : body = found := Except.ok.inj (hbody.symm.trans hfound)
    obtain ⟨others, hothers, htext⟩ := sequence_ok htext
    have hjoined := (Except.ok.inj htext).symm
    rwa [attachmentTexts_eq 0 hothers, hsame] at hjoined

/-- Other bytes make at most one part, which has no text. -/
theorem no_text_of_other {attachmentBlobs : String → Option Bytes}
    {made : List LocatedSearchPart} {hash mediaType : String} {bytes : Bytes}
    (hmedia : mediaType ≠ contentPartsMediaType)
    (h : searchPartsOf sha256 strictText bytes mediaType hash attachmentBlobs = .ok made) :
    ∀ part ∈ made, part.text = none := by
  unfold searchPartsOf at h
  rw [if_neg hmedia] at h
  split at h
  · cases h
    intro part hpart
    rw [List.mem_singleton.mp hpart]
  · cases h
    intro part hpart
    cases hpart

/-- One event, after the reads of the blobs. -/
theorem spans_of_event {events : List AuthorizedSourceEvent}
    {bodies attachmentBlobs : String → Option Bytes}
    {textAttachments : Table TextAttachments.contentHash} {source : AuthorizedSourceEvent}
    {material : MaterializedEvent}
    (hfetched : Fetched blobs events bodies attachmentBlobs textAttachments)
    (hsource : source ∈ events)
    (h : materializeEvent sha256 strictText true bodies attachmentBlobs textAttachments source =
      .ok material) :
    TextBuilt (builtFrom sha256 strictText blobs events source) material ∧
      (SpansExact (builtFrom sha256 strictText blobs events source) material ↔
        SpansAgree sha256 strictText blobs events source) := by
  by_cases hreads : ∃ hash mediaType bytes, Reads blobs source hash mediaType bytes
  · obtain ⟨hash, mediaType, bytes, hhash, hbytes, hmedia⟩ := hreads
    have hbody : bodies hash = some bytes := by
      rw [hfetched.found source hsource hash hhash, hbytes]
    obtain ⟨htext, hparts⟩ := made_of_materializeEvent h hhash hbody hmedia
    rw [builtFrom_of_read hhash hbytes hmedia, spansAgree_of_read hhash hbytes hmedia]
    refine ⟨text_of_read hfetched hbody htext, ?_⟩
    by_cases henvelope : mediaType = contentPartsMediaType
    · subst henvelope
      have hread : readAsEnvelope events hash = true := by
        refine List.any_eq_true.mpr ⟨source, hsource, ?_⟩
        rw [hhash, (present_some.mp hmedia).1, decide_eq_true rfl, decide_eq_true rfl]
        rfl
      have hattachments : attachmentsOf textAttachments hash = envelopeAttachments bytes := by
        rw [hfetched.read hash]
        unfold attachmentsRead
        rw [if_pos hread, hbody, Option.getD_some]
      rw [hattachments] at htext
      have hexact := spans_of_envelope (hattachments ▸ hfetched.attached hash) htext hparts
      simp only [hread, if_true, true_imp_iff, iff_true]
      exact hexact
    · rw [spansExact_of_no_text (no_text_of_other henvelope hparts)]
      cases hasBinarySignature bytes <;> cases readAsEnvelope events hash <;> simp [henvelope]
  · have hunread : ∀ hash mediaType bytes, ¬ Reads blobs source hash mediaType bytes :=
      fun hash mediaType bytes hread => hreads ⟨hash, mediaType, bytes, hread⟩
    obtain ⟨htext, hparts⟩ := material_of_unread h fun hash mediaType bytes hread =>
      hunread hash mediaType bytes
        ⟨hread.1, (hfetched.found source hsource hash hread.1).symm.trans hread.2.1, hread.2.2⟩
    rw [builtFrom_of_unread hunread]
    refine ⟨⟨none, htext⟩, iff_of_true ?_ ?_⟩
    · exact (spansExact_of_no_text (by rw [hparts]; intro part hpart; cases hpart)).mpr rfl
    · intro hash bytes mediaType hhash hbytes hmedia
      exact absurd ⟨hhash, hbytes, hmedia⟩ (hunread hash mediaType bytes)

/-- The material of every event has its text built from a body and the attachments of its
envelope; its parts have the spans of these exactly where the two readings of the bytes agree. -/
theorem attachment_spans_exact_iff {events : List AuthorizedSourceEvent}
    {materials : List MaterializedEvent}
    (h : materialize sha256 strictText blobs events = .ok materials) :
    List.Forall₂ (fun source material =>
      TextBuilt (builtFrom sha256 strictText blobs events source) material ∧
        (SpansExact (builtFrom sha256 strictText blobs events source) material ↔
          SpansAgree sha256 strictText blobs events source)) events materials := by
  obtain ⟨bodies, attachmentBlobs, textAttachments, hfetched, hmade⟩ := fetched_of_materialize h
  have hall := forall₂_of_mapM_ok hmade
  have hwith := List.forall₂_iff_zip.mp hall
  refine List.forall₂_iff_zip.mpr ⟨hwith.1, ?_⟩
  intro source material hpair
  exact spans_of_event hfetched (List.of_mem_zip hpair).1 (hwith.2 hpair)

/-! ## A letter with an attachment, and an envelope taken for a video -/

def letterEnvelope : String :=
  "[\x7b\"role\":\"body\",\"text\":\"hi\"\x7d,\x7b\"role\":\"attachment\"," ++
    "\"media_type\":\"text/plain\",\"text\":\"x\"\x7d]"

/-- Bytes four to seven are `ftyp`. -/
def boxEnvelope : String :=
  "[ \x7b\"ftyp\":0,\"role\":\"attachment\",\"media_type\":\"text/plain\",\"text\":\"x\"\x7d]"

def letterHash : String := "04a729eb863d63376bf657c261600aa54f26a8f9bd002946fceaf5989116c000"

def boxHash : String := "1469f8ac9b4f095548a2f72c5736d6b70e20365ed9de13eed4d1074eae38de25"

def spanDigests : Sha256 :=
  .ofDigests [(utf8Encode letterEnvelope, letterHash), (utf8Encode boxEnvelope, boxHash)]

def envelopeBlobs (hash envelope : String) : String → Option Bytes :=
  fun asked => if asked = hash then some (utf8Encode envelope) else none

def envelopeSource (hash : String) : AuthorizedSourceEvent where
  eventId := "m"
  orgId := "o"
  source := "s"
  externalId := "e"
  operation := .create
  occurredAt := "2026-01-01T00:00:00.000Z"
  ingestedAt := "2026-01-01T00:00:00.000Z"
  contentHash := some hash
  requiredScopeIds := []
  contentMediaType := some contentPartsMediaType
  status := .current

theorem attachment_spans_exact_iff_letter :
    ∃ materials, materialize spanDigests true (envelopeBlobs letterHash letterEnvelope)
        [envelopeSource letterHash] = .ok materials ∧
      materials.map (fun material => (material.text, material.searchParts.map (·.span))) =
        [(some "hi\n\nx", [some (4, 5)])] ∧
      List.Forall₂ (fun source material =>
        TextBuilt (builtFrom spanDigests true (envelopeBlobs letterHash letterEnvelope)
          [envelopeSource letterHash] source) material ∧
        (SpansExact (builtFrom spanDigests true (envelopeBlobs letterHash letterEnvelope)
          [envelopeSource letterHash] source) material ↔
          SpansAgree spanDigests true (envelopeBlobs letterHash letterEnvelope)
            [envelopeSource letterHash] source)) [envelopeSource letterHash] materials := by
  obtain ⟨materials, hmade, hspans⟩ := ok_of_any
    (x := materialize spanDigests true (envelopeBlobs letterHash letterEnvelope)
      [envelopeSource letterHash])
    (p := fun materials => decide (materials.map (fun material =>
      (material.text, material.searchParts.map (·.span))) =
        [(some "hi\n\nx", [some (4, 5)])])) (by decide +kernel)
  exact ⟨materials, hmade, of_decide_eq_true hspans, attachment_spans_exact_iff hmade⟩

theorem binary_envelope_part_spans_nothing :
    ∃ materials, materialize spanDigests true (envelopeBlobs boxHash boxEnvelope)
        [envelopeSource boxHash] = .ok materials ∧
      ¬ List.Forall₂ (fun source material =>
        SpansExact (builtFrom spanDigests true (envelopeBlobs boxHash boxEnvelope)
          [envelopeSource boxHash] source) material) [envelopeSource boxHash] materials := by
  obtain ⟨materials, hmade, hspans⟩ := ok_of_any
    (x := materialize spanDigests true (envelopeBlobs boxHash boxEnvelope)
      [envelopeSource boxHash])
    (p := fun materials => decide (materials.map (fun material =>
      (material.text, material.searchParts.map (·.text))) = [(none, [some "x"])]))
    (by decide +kernel)
  refine ⟨materials, hmade, ?_⟩
  intro hexact
  cases hexact with
  | @cons _ material _ rest hfirst _ =>
    have hsame := of_decide_eq_true hspans
    rw [List.map_cons, List.cons.injEq, Prod.mk.injEq] at hsame
    obtain ⟨⟨hnone, htexts⟩, -⟩ := hsame
    have hmem : some "x" ∈ material.searchParts.map (·.text) := by
      rw [htexts]
      exact List.mem_singleton_self _
    obtain ⟨part, hpart, htext⟩ := List.mem_map.mp hmem
    obtain ⟨whole, start, hwhole, -, -⟩ := hfirst.sliced part hpart "x" htext
    cases hnone.symm.trans hwhole

end Regenic.Context.Material
