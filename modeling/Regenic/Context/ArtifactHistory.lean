import Regenic.Context.ArtifactLoaded

/-!
Artifacts put one after another. Segments are added to the shelf of their organisation where their
hash is new; no two of those that a history packs have one hash, so what is there already is what
would be added, and every artifact that was put is decoded to what it was, whatever else is put.
-/

namespace Regenic.Context.Artifacts

open Lib Ingest Assembly

variable {sha256 : Sha256} {isTimestamp : String → Bool}

/-! ## Shelves that grow -/

variable (sha256) in
/-- SHA-256 tells these segments apart. -/
def CollisionFree (known : List Segment) : Prop :=
  ∀ segment ∈ known, ∀ other ∈ known, segment.hash sha256 = other.hash sha256 →
    segment.text = other.text

def addEntry (entries : List (String × String)) (entry : String × String) :
    List (String × String) :=
  if entry.1 ∈ entries.map Prod.fst then entries else entries ++ [entry]

variable (sha256) in
/-- Entries of segments that are known. -/
def Known (known : List Segment) (entries : List (String × String)) : Prop :=
  ∀ entry ∈ entries, ∃ segment ∈ known, segment.Sound ∧ entry = segment.entry sha256

section Shelves

variable {known : List Segment} {entries : List (String × String)} (hfree : CollisionFree sha256 known)

include hfree

/-- Entries of one name are the same. -/
theorem entry_eq_of_name {left right : String × String}
    (hleft : ∃ segment ∈ known, segment.Sound ∧ left = segment.entry sha256)
    (hright : ∃ segment ∈ known, segment.Sound ∧ right = segment.entry sha256)
    (hname : left.1 = right.1) : left = right := by
  obtain ⟨segment, hsegment, -, rfl⟩ := hleft
  obtain ⟨other, hother, -, rfl⟩ := hright
  exact Prod.ext hname (hfree segment hsegment other hother hname)

theorem mem_addEntry (hknown : Known sha256 known entries) {entry : String × String}
    (hentry : ∃ segment ∈ known, segment.Sound ∧ entry = segment.entry sha256) :
    entry ∈ addEntry entries entry := by
  unfold addEntry
  split
  · next hname =>
    obtain ⟨found, hfound, hsame⟩ := List.mem_map.mp hname
    rw [← entry_eq_of_name hfree (hknown found hfound) hentry hsame]
    exact hfound
  · exact List.mem_append_right _ (List.mem_singleton_self _)

omit hfree in
theorem subset_addEntry (entries : List (String × String)) (entry : String × String) :
    entries ⊆ addEntry entries entry := by
  unfold addEntry
  split
  · exact List.Subset.refl _
  · exact List.subset_append_left _ _

omit hfree in
theorem Known.addEntry (hknown : Known sha256 known entries) {entry : String × String}
    (hentry : ∃ segment ∈ known, segment.Sound ∧ entry = segment.entry sha256) :
    Known sha256 known (addEntry entries entry) := by
  unfold Artifacts.addEntry
  split
  · exact hknown
  · intro other hother
    rcases List.mem_append.mp hother with hold | hnew
    · exact hknown other hold
    · obtain rfl := List.mem_singleton.mp hnew
      exact hentry

omit hfree in
theorem Shelf.addEntry (hshelf : Shelf sha256 known entries) {entry : String × String}
    (hentry : ∃ segment ∈ known, segment.Sound ∧ entry = segment.entry sha256)
    (hlinks : ∀ link ∈ textLinks entry.2, link ∈ entries.map Prod.fst) :
    Shelf sha256 known (addEntry entries entry) := by
  have hknown := Known.addEntry hshelf.sound hentry
  unfold Artifacts.addEntry at hknown ⊢
  split
  · exact hshelf
  · next hfresh =>
    rw [if_neg hfresh] at hknown
    refine ⟨?_, .snoc hshelf.grounded hlinks, hknown⟩
    rw [List.map_append, List.nodup_append]
    refine ⟨hshelf.nodup, List.nodup_singleton _, ?_⟩
    intro name hname other hother
    obtain rfl := List.mem_singleton.mp hother
    rintro rfl
    exact hfresh hname

/-- A shelf with more entries, each of which refers only to those before it. -/
theorem Shelf.addAll (hshelf : Shelf sha256 known entries) {more : List (String × String)}
    (hmore : Grounded textLinks more) (hknown : Known sha256 known more) :
    Shelf sha256 known (more.foldl Artifacts.addEntry entries) ∧
      entries ⊆ more.foldl Artifacts.addEntry entries ∧
      more ⊆ more.foldl Artifacts.addEntry entries := by
  induction hmore with
  | nil => exact ⟨hshelf, List.Subset.refl _, List.nil_subset _⟩
  | @snoc more entry _ hlinks ih =>
    obtain ⟨hgrown, hold, hall⟩ := ih fun other hother => hknown other (List.mem_append_left _ hother)
    have hentry := hknown entry (List.mem_append_right _ (List.mem_singleton_self _))
    rw [List.foldl_append, List.foldl_cons, List.foldl_nil]
    have hsubset := subset_addEntry (more.foldl Artifacts.addEntry entries) entry
    refine ⟨hgrown.addEntry hentry fun link hlink => List.map_subset _ hall (hlinks link hlink),
      List.Subset.trans hold hsubset, ?_⟩
    intro other hother
    rcases List.mem_append.mp hother with hin | hlast
    · exact hsubset (hall hin)
    · obtain rfl := List.mem_singleton.mp hlast
      exact mem_addEntry hfree hgrown.sound hentry

/-- A `Map` grows like a shelf where names tell entries apart. -/
theorem rows_put {stored : SegmentMap} (hknown : Known sha256 known stored.rows)
    {entry : String × String}
    (hentry : ∃ segment ∈ known, segment.Sound ∧ entry = segment.entry sha256) :
    (stored.put entry).rows = addEntry stored.rows entry := by
  have hany : (stored.rows.any fun row => row.1 = entry.1) = true ↔
      entry.1 ∈ stored.rows.map Prod.fst := by
    rw [List.any_eq_true, List.mem_map]
    simp only [decide_eq_true_eq]
  unfold Table.put addEntry
  by_cases hname : entry.1 ∈ stored.rows.map Prod.fst
  · simp only [hany.mpr hname, hname, if_true]
    have hsame : ∀ row ∈ stored.rows, (if row.1 = entry.1 then entry else row) = id row := by
      intro row hrow
      split
      · next heq => exact (entry_eq_of_name hfree (hknown row hrow) hentry heq).symm
      · rfl
    rw [List.map_congr_left hsame, List.map_id]
  · simp only [hname, if_false, Bool.eq_false_iff.mpr (mt hany.mp hname), Bool.false_eq_true]

theorem rows_storeAll {segments : List Segment} (hsegments : segments ⊆ known)
    (hsound : ∀ segment ∈ segments, segment.Sound) {stored : SegmentMap}
    (hknown : Known sha256 known stored.rows) :
    (segments.foldl (fun stored segment => stored.put (segment.hash sha256, segment.text))
      stored).rows = (segments.map (Segment.entry sha256)).foldl addEntry stored.rows := by
  induction segments generalizing stored with
  | nil => rfl
  | cons segment rest ih =>
    have hentry : ∃ other ∈ known, other.Sound ∧
        segment.entry sha256 = other.entry sha256 :=
      ⟨segment, hsegments List.mem_cons_self, hsound segment List.mem_cons_self, rfl⟩
    have hput : (stored.put (segment.hash sha256, segment.text)).rows =
        addEntry stored.rows (segment.entry sha256) := rows_put hfree hknown hentry
    rw [List.foldl_cons, List.map_cons, List.foldl_cons,
      ih (fun other hother => hsegments (List.mem_cons_of_mem _ hother))
        (fun other hother => hsound other (List.mem_cons_of_mem _ hother))
        (by rw [hput]; exact hknown.addEntry hentry), hput]

/-- The segments of a packing, as its `Map` has them. -/
theorem shelf_storeAll {segments : List Segment} (hsegments : segments ⊆ known)
    (hsound : ∀ segment ∈ segments, segment.Sound) (hbuilt : Built sha256 segments) :
    Shelf sha256 known (storeAll sha256 segments).rows ∧
      ∀ segment ∈ segments, segment.entry sha256 ∈ (storeAll sha256 segments).rows := by
  have hempty : Shelf sha256 known [] := ⟨List.nodup_nil, .nil, fun _ h => absurd h List.not_mem_nil⟩
  have hrows : (storeAll sha256 segments).rows =
      (segments.map (Segment.entry sha256)).foldl addEntry [] :=
    rows_storeAll hfree hsegments hsound hempty.sound
  have hgrounded : Grounded textLinks (segments.map (Segment.entry sha256)) := by
    have htold : ∀ entry ∈ segments.map fun segment => (segment.hash sha256, segment),
        textLinks entry.2.text = entry.2.links := by
      intro entry hentry
      obtain ⟨segment, hsegment, rfl⟩ := List.mem_map.mp hentry
      exact textLinks_text (hsound segment hsegment)
    have hmapped := Grounded.map hbuilt htold
    rw [List.map_map] at hmapped
    exact hmapped
  have hknown : Known sha256 known (segments.map (Segment.entry sha256)) := by
    intro entry hentry
    obtain ⟨segment, hsegment, rfl⟩ := List.mem_map.mp hentry
    exact ⟨segment, hsegments hsegment, hsound segment hsegment, rfl⟩
  obtain ⟨hshelf, -, hall⟩ := hempty.addAll hfree hgrounded hknown
  rw [hrows]
  exact ⟨hshelf, fun segment hsegment => hall (List.mem_map_of_mem hsegment)⟩

end Shelves

/-! ## Artifacts -/

variable (sha256) in
theorem packed_stored {artifact : ContextArtifact}
    (h : ∀ attrs ∈ artifact.attrs, Json.Printable attrs) :
    (∀ segment ∈ artifact.stored sha256, segment.Sound) ∧ Built sha256 (artifact.stored sha256) := by
  unfold ContextArtifact.stored
  split
  · have hrefs := packed_refs sha256 artifact
    have hscopes := packed_scopes sha256 artifact
    cases hsome : artifact.attrs with
    | none =>
      simp only [Option.map_none, Option.getD_none, List.append_nil]
      refine ⟨fun segment hsegment => ?_, hrefs.built.append hscopes.built⟩
      rcases List.mem_append.mp hsegment with hin | hin
      · exact hrefs.segments segment hin
      · exact hscopes.segments segment hin
    | some attrs =>
      have hattrs : Packed sha256 (reference sha256 attrs) := packed_reference attrs (h attrs hsome)
      simp only [Option.map_some, Option.getD_some]
      refine ⟨fun segment hsegment => ?_, (hrefs.built.append hscopes.built).append hattrs.built⟩
      rcases List.mem_append.mp hsegment with hboth | hin
      · rcases List.mem_append.mp hboth with hin | hin
        · exact hrefs.segments segment hin
        · exact hscopes.segments segment hin
      · exact hattrs.segments segment hin
  · exact ⟨fun _ hsegment => absurd hsegment List.not_mem_nil, .nil⟩

/-! ## Tables -/

/-- The segments of an organisation, in the order in which they were added. -/
def orgEntries (segments : Table SegmentRow.key) (orgId : String) : List (String × String) :=
  (segments.rows.filter fun row => row.orgId = orgId).map fun row =>
    (row.contentHash, row.payloadJson)

theorem mem_orgEntries {segments : Table SegmentRow.key} {orgId : String} {entry : String × String} :
    entry ∈ orgEntries segments orgId ↔ ⟨orgId, entry.1, entry.2⟩ ∈ segments.rows := by
  unfold orgEntries
  rw [List.mem_map]
  constructor
  · rintro ⟨row, hrow, rfl⟩
    obtain ⟨hmem, horg⟩ := List.mem_filter.mp hrow
    obtain rfl := of_decide_eq_true horg
    exact hmem
  · intro hmem
    exact ⟨_, List.mem_filter.mpr ⟨hmem, decide_eq_true rfl⟩, rfl⟩

theorem loadSegment_of_entry {tables : ArtifactTables} {orgId : String} :
    ∀ entry ∈ orgEntries tables.segments orgId,
      loadSegment tables orgId entry.1 = some entry.2 := by
  intro entry hentry
  have hrow : tables.segments.get? (orgId, entry.1) = some ⟨orgId, entry.1, entry.2⟩ :=
    Table.get?_key (mem_orgEntries.mp hentry)
  unfold loadSegment
  rw [hrow]
  rfl

theorem isSome_segment {segments : Table SegmentRow.key} {orgId hash : String} :
    (segments.get? (orgId, hash)).isSome = true ↔
      hash ∈ (orgEntries segments orgId).map Prod.fst := by
  constructor
  · intro hsome
    obtain ⟨row, hrow⟩ := Option.isSome_iff_exists.mp hsome
    obtain ⟨hmem, hkey⟩ := Table.get?_eq_some.mp hrow
    obtain ⟨rfl, rfl⟩ := Prod.mk.inj hkey
    have hentry : (row.contentHash, row.payloadJson) ∈ orgEntries segments row.orgId :=
      mem_orgEntries.mpr hmem
    exact List.mem_map_of_mem (f := Prod.fst) hentry
  · intro hname
    obtain ⟨entry, hentry, rfl⟩ := List.mem_map.mp hname
    exact Option.isSome_iff_exists.mpr ⟨_, Table.get?_key (mem_orgEntries.mp hentry)⟩

theorem orgEntries_insert (segments : Table SegmentRow.key) (orgId : String)
    (entry : String × String) :
    orgEntries (insertSegment orgId segments entry) orgId =
        addEntry (orgEntries segments orgId) entry ∧
      ∀ other, other ≠ orgId →
        orgEntries (insertSegment orgId segments entry) other = orgEntries segments other := by
  unfold insertSegment addEntry
  cases hfound : segments.get? (orgId, entry.1) with
  | some row =>
    have hname : entry.1 ∈ (orgEntries segments orgId).map Prod.fst :=
      isSome_segment.mp (by rw [hfound]; rfl)
    simp only [Option.isSome_some, if_true, hname]
    exact ⟨trivial, fun _ _ => trivial⟩
  | none =>
    have hname : entry.1 ∉ (orgEntries segments orgId).map Prod.fst := by
      rw [← isSome_segment, hfound]
      decide
    have hrows : (segments.put ⟨orgId, entry.1, entry.2⟩).rows =
        segments.rows ++ [⟨orgId, entry.1, entry.2⟩] := by
      rw [Table.put_eq_insert (show segments.get? (SegmentRow.key ⟨orgId, entry.1, entry.2⟩) = none
        from hfound)]
      rfl
    simp only [Option.isSome_none, Bool.false_eq_true, if_false, hname]
    unfold orgEntries
    rw [hrows, List.filter_append, List.map_append]
    constructor
    · simp
    · intro other hother
      simp [hother.symm]

theorem orgEntries_insertAll (orgId : String) (entries : List (String × String))
    (segments : Table SegmentRow.key) :
    orgEntries (entries.foldl (insertSegment orgId) segments) orgId =
        entries.foldl addEntry (orgEntries segments orgId) ∧
      ∀ other, other ≠ orgId →
        orgEntries (entries.foldl (insertSegment orgId) segments) other =
          orgEntries segments other := by
  induction entries generalizing segments with
  | nil => exact ⟨rfl, fun _ _ => rfl⟩
  | cons entry rest ih =>
    obtain ⟨hown, hothers⟩ := orgEntries_insert segments orgId entry
    obtain ⟨hrest, hrestOthers⟩ := ih (insertSegment orgId segments entry)
    rw [List.foldl_cons, List.foldl_cons, ← hown]
    exact ⟨hrest, fun other hother => (hrestOthers other hother).trans (hothers other hother)⟩

/-! ## Histories -/

variable (sha256) in
/-- Every organisation has its segments on a shelf. -/
def Shelved (known : List Segment) (tables : ArtifactTables) : Prop :=
  ∀ orgId, Shelf sha256 known (orgEntries tables.segments orgId)

variable (sha256) (isTimestamp) in
/-- An artifact is stored: its row, and its segments. -/
structure Holds (tables : ArtifactTables) (artifact : ContextArtifact) : Prop where
  valid : validArtifact sha256 isTimestamp artifact = true
  row : tables.artifacts.get? (artifact.orgId, artifact.id) =
    some ⟨artifact.orgId, artifact.id, (packContextArtifact sha256 artifact).payload⟩
  segments : ∀ segment ∈ artifact.stored sha256,
    segment.entry sha256 ∈ orgEntries tables.segments artifact.orgId

theorem putImmutable_ok {artifacts next : Table ArtifactRow.key} {row : ArtifactRow}
    (h : putImmutable artifacts row = .ok next) :
    next.get? row.key = some row ∧ ∀ key found, artifacts.get? key = some found →
      next.get? key = some found := by
  unfold putImmutable at h
  cases hcurrent : artifacts.get? row.key with
  | none =>
    simp only [hcurrent] at h
    cases h
    refine ⟨by rw [Table.get?_put, if_pos rfl], fun key found hfound => ?_⟩
    rw [Table.get?_put, if_neg, hfound]
    rintro rfl
    rw [hcurrent] at hfound
    cases hfound
  | some current =>
    simp only [hcurrent] at h
    obtain ⟨hsame, h⟩ := checked_ok h
    cases h
    refine ⟨?_, fun _ _ hfound => hfound⟩
    obtain ⟨-, hkey⟩ := Table.get?_eq_some.mp hcurrent
    obtain ⟨horg, hid⟩ := Prod.mk.inj hkey
    obtain ⟨orgId, id, payload⟩ := current
    obtain ⟨rowOrg, rowId, rowPayload⟩ := row
    simp only at horg hid
    have hpayload := of_decide_eq_true hsame
    simp only at hpayload
    rw [hcurrent, horg, hid, hpayload]

section Run

variable {known : List Segment} (hfree : CollisionFree sha256 known)

include hfree

/-- A call that came to its end stored its artifact, and left what was stored. -/
theorem putArtifact_holds {tables next : ArtifactTables} {artifact : ContextArtifact}
    (hshelved : Shelved sha256 known tables) (hknown : artifact.stored sha256 ⊆ known)
    (h : putArtifact sha256 isTimestamp tables artifact = .ok next) :
    Shelved sha256 known next ∧ Holds sha256 isTimestamp next artifact ∧
      ∀ other, Holds sha256 isTimestamp tables other → Holds sha256 isTimestamp next other := by
  unfold putArtifact at h
  obtain ⟨hvalid, h⟩ := checked_ok h
  obtain ⟨artifacts, hput, h⟩ := sequence_ok h
  cases h
  obtain ⟨hrow, hrows⟩ := putImmutable_ok hput
  obtain ⟨hsound, hbuilt⟩ := packed_stored sha256 (attrs_printable hvalid)
  obtain ⟨hpacked, hall⟩ := shelf_storeAll hfree hknown hsound hbuilt
  obtain ⟨hown, hothers⟩ := orgEntries_insertAll artifact.orgId
    (packContextArtifact sha256 artifact).segments.rows tables.segments
  obtain ⟨hgrown, hold, hnew⟩ :=
    (hshelved artifact.orgId).addAll hfree hpacked.grounded hpacked.sound
  refine ⟨?_, ⟨hvalid, hrow, ?_⟩, ?_⟩
  · intro orgId
    by_cases horg : orgId = artifact.orgId
    · subst horg
      rw [hown]
      exact hgrown
    · rw [hothers orgId horg]
      exact hshelved orgId
  · intro segment hsegment
    rw [hown]
    exact hnew (hall segment hsegment)
  · intro other hother
    refine ⟨hother.valid, hrows _ _ hother.row, fun segment hsegment => ?_⟩
    have hbefore := hother.segments segment hsegment
    by_cases horg : other.orgId = artifact.orgId
    · rw [horg] at hbefore ⊢
      rw [hown]
      exact hold hbefore
    · rw [hothers other.orgId horg]
      exact hbefore

theorem putStep_holds {tables : ArtifactTables} {artifact : ContextArtifact}
    (hshelved : Shelved sha256 known tables) (hknown : artifact.stored sha256 ⊆ known) :
    Shelved sha256 known (putStep sha256 isTimestamp tables artifact) ∧
      ∀ other, Holds sha256 isTimestamp tables other →
        Holds sha256 isTimestamp (putStep sha256 isTimestamp tables artifact) other := by
  unfold putStep
  cases hput : putArtifact sha256 isTimestamp tables artifact with
  | error thrown => exact ⟨hshelved, fun _ h => h⟩
  | ok next =>
    obtain ⟨hnext, -, hothers⟩ := putArtifact_holds hfree hshelved hknown hput
    exact ⟨hnext, hothers⟩

theorem putAll_holds {tables : ArtifactTables} {history : List ContextArtifact}
    (hshelved : Shelved sha256 known tables)
    (hknown : ∀ artifact ∈ history, artifact.stored sha256 ⊆ known) :
    Shelved sha256 known (putAll sha256 isTimestamp tables history) ∧
      ∀ other, Holds sha256 isTimestamp tables other →
        Holds sha256 isTimestamp (putAll sha256 isTimestamp tables history) other := by
  unfold putAll
  induction history generalizing tables with
  | nil => exact ⟨hshelved, fun _ h => h⟩
  | cons artifact rest ih =>
    obtain ⟨hstep, hkept⟩ := @putStep_holds _ isTimestamp _ hfree _ _ hshelved
      (hknown artifact List.mem_cons_self)
    obtain ⟨hrest, hkeptRest⟩ := ih hstep fun other hother =>
      hknown other (List.mem_cons_of_mem _ hother)
    exact ⟨hrest, fun other hother => hkeptRest other (hkept other hother)⟩

end Run

end Regenic.Context.Artifacts
