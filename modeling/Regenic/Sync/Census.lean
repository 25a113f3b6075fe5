import Regenic.Lib.Run
import Regenic.Lib.Table
import Regenic.Sync.Catalog

/-!
Directory pages one after another: which census each page starts or continues, what a census has
listed, and what is left of the catalog when a page completes. A page that completes without a
census is one that only adds, which the pruning by generation does not know.
-/

namespace Regenic.Sync

open Lib

/-! ## Pages -/

abbrev CatalogMap : Type := Table SyncCatalogMember.streamKey

/-- The stored members by key; where a key repeats, its last row counts. -/
def SyncCatalogView.byKey (view : SyncCatalogView) : CatalogMap :=
  view.members.foldl Table.put ∅

def SyncCatalogView.keys (view : SyncCatalogView) : List String :=
  view.members.map (·.streamKey)

/-- The non-blank trimmed keys of a page. -/
def listedKeys (page : ApplySyncCatalogPageInput) : List String :=
  (page.members.map fun member => jsTrim member.streamKey).filter fun key => key ≠ ""

def SyncCatalogView.hasCursor (view : SyncCatalogView) : Bool :=
  (present (view.catalog.bind (·.cursor))).isSome

/-- A page with `replaces` starts a census, and so does an unfinished one on a catalog without a
cursor. -/
def startsCensus (view : SyncCatalogView) (page : ApplySyncCatalogPageInput) : Bool :=
  page.replaces || (!view.hasCursor && !page.complete)

def SyncCatalogView.generation (view : SyncCatalogView) : Option Int :=
  view.catalog.map (·.generation)

/-- The generation that a page writes. -/
def pageGeneration (view : SyncCatalogView) (page : ApplySyncCatalogPageInput) : Int :=
  if startsCensus view page then view.generation.getD 0 + 1 else view.generation.getD 1

/-- The members of a page written over those that are stored. -/
def listMember (page : ApplySyncCatalogPageInput) (generation : Int) (byKey : CatalogMap)
    (incoming : SyncDirectoryMember) : CatalogMap :=
  if jsTrim incoming.streamKey = "" then byKey
  else byKey.put (catalogMemberFrom page generation (jsTrim incoming.streamKey) incoming
    (byKey.get? (jsTrim incoming.streamKey)))

def listPage (view : SyncCatalogView) (page : ApplySyncCatalogPageInput) : CatalogMap :=
  page.members.foldl (listMember page (pageGeneration view page)) view.byKey

section Listing

variable {view : SyncCatalogView} {page : ApplySyncCatalogPageInput}

theorem foldl_setMember (members : List SyncCatalogMember) (byKey : CatalogMap) :
    members.foldl setMember byKey.rows = (members.foldl Table.put byKey).rows := by
  induction members generalizing byKey with
  | nil => rfl
  | cons member rest ih => exact ih (byKey.put member)

theorem rows_listMembers (generation : Int) (members : List SyncDirectoryMember)
    (byKey : CatalogMap) :
    members.foldl (fun byKey incoming =>
      let streamKey := jsTrim incoming.streamKey
      if streamKey = "" then byKey
      else
        let prev := byKey.find? (fun m => m.streamKey = streamKey)
        setMember byKey (catalogMemberFrom page generation streamKey incoming prev))
      byKey.rows = (members.foldl (listMember page generation) byKey).rows := by
  induction members generalizing byKey with
  | nil => rfl
  | cons incoming rest ih =>
    rw [List.foldl_cons, List.foldl_cons, ← ih]
    congr 1
    unfold listMember
    dsimp only
    by_cases hblank : jsTrim incoming.streamKey = ""
    · rw [if_pos hblank, if_pos hblank]
    · rw [if_neg hblank, if_neg hblank]
      rfl

/-- A page in terms of the map that it is written into. -/
theorem applySyncCatalogMembers_members :
    (applySyncCatalogMembers view page).members =
      if page.complete then
        ((listPage view page).filter fun member =>
          member.generation = pageGeneration view page).rows
      else (listPage view page).rows := by
  have hseed : view.members.foldl setMember [] = view.byKey.rows :=
    foldl_setMember view.members ∅
  have hgeneration : (if page.replaces || ((present (view.catalog.bind (·.cursor))).isNone &&
      !page.complete) then (view.catalog.map (·.generation)).getD 0 + 1
      else (view.catalog.map (·.generation)).getD 1) = pageGeneration view page := by
    unfold pageGeneration startsCensus SyncCatalogView.hasCursor SyncCatalogView.generation
    rw [Option.not_isSome]
  unfold applySyncCatalogMembers
  dsimp only
  rw [hgeneration, hseed, rows_listMembers]
  rfl

theorem listMember_get? (generation : Int) (byKey : CatalogMap)
    (incoming : SyncDirectoryMember) (key : String) :
    (key = jsTrim incoming.streamKey ∧ key ≠ "" ∧
      ∃ member, (listMember page generation byKey incoming).get? key = some member ∧
        member.generation = generation ∧
        ∀ prev, byKey.get? key = some prev → member.discoveredAt = prev.discoveredAt) ∨
    (¬(key = jsTrim incoming.streamKey ∧ key ≠ "") ∧
      (listMember page generation byKey incoming).get? key = byKey.get? key) := by
  unfold listMember
  by_cases hblank : jsTrim incoming.streamKey = ""
  · right
    rw [if_pos hblank]
    refine ⟨?_, rfl⟩
    rintro ⟨hkey, hne⟩
    exact hne (hkey.trans hblank)
  · rw [if_neg hblank, Table.get?_put]
    by_cases hkey : jsTrim incoming.streamKey = key
    · left
      subst hkey
      refine ⟨rfl, hblank, _, if_pos rfl, rfl, ?_⟩
      intro prev hprev
      unfold catalogMemberFrom
      rw [hprev]
      rfl
    · right
      exact ⟨fun hboth => hkey hboth.1.symm, if_neg hkey⟩

/-- What a page makes of each key: a listed one is of the page's generation and keeps when it was
discovered, and another one is as it was. -/
theorem listMembers_get? (generation : Int) (members : List SyncDirectoryMember)
    (byKey : CatalogMap) (key : String) :
    (key ∈ (members.map fun member => jsTrim member.streamKey).filter (fun key => key ≠ "") →
      ∃ member, (members.foldl (listMember page generation) byKey).get? key = some member ∧
        member.generation = generation ∧
        ∀ prev, byKey.get? key = some prev → member.discoveredAt = prev.discoveredAt) ∧
    (key ∉ (members.map fun member => jsTrim member.streamKey).filter (fun key => key ≠ "") →
      (members.foldl (listMember page generation) byKey).get? key = byKey.get? key) := by
  induction members generalizing byKey with
  | nil => exact ⟨fun hmem => absurd hmem List.not_mem_nil, fun _ => rfl⟩
  | cons incoming rest ih =>
    obtain ⟨hin, hout⟩ := ih (listMember page generation byKey incoming)
    have hlisted : key ∈ ((incoming :: rest).map fun member => jsTrim member.streamKey).filter
          (fun key => key ≠ "") ↔
        (key = jsTrim incoming.streamKey ∧ key ≠ "") ∨
          key ∈ (rest.map fun member => jsTrim member.streamKey).filter (fun key => key ≠ "") := by
      simp only [List.map_cons, List.mem_filter, List.mem_cons, or_and_right, decide_eq_true_eq]
    rw [hlisted, List.foldl_cons]
    rcases listMember_get? generation byKey incoming key with
      ⟨hkey, hne, member, hget, hgeneration, hfound⟩ | ⟨hother, hget⟩
    · refine ⟨fun _ => ?_, fun hnone => absurd (.inl ⟨hkey, hne⟩) hnone⟩
      by_cases hrest : key ∈ (rest.map fun member => jsTrim member.streamKey).filter
          (fun key => key ≠ "")
      · obtain ⟨last, hlast, hlastGeneration, hlastFound⟩ := hin hrest
        refine ⟨last, hlast, hlastGeneration, fun prev hprev => ?_⟩
        exact (hlastFound member hget).trans (hfound prev hprev)
      · exact ⟨member, (hout hrest).trans hget, hgeneration, hfound⟩
    · refine ⟨fun hmem => ?_, fun hnone => (hout fun hmem => hnone (.inr hmem)).trans hget⟩
      obtain ⟨last, hlast, hlastGeneration, hlastFound⟩ := hin (hmem.resolve_left hother)
      exact ⟨last, hlast, hlastGeneration, fun prev hprev => hlastFound prev (hget.trans hprev)⟩

theorem listPage_listed {key : String} (hkey : key ∈ listedKeys page) :
    ∃ member, (listPage view page).get? key = some member ∧
      member.generation = pageGeneration view page ∧
      ∀ prev, view.byKey.get? key = some prev → member.discoveredAt = prev.discoveredAt :=
  (listMembers_get? (pageGeneration view page) page.members view.byKey key).1 hkey

theorem listPage_other {key : String} (hkey : key ∉ listedKeys page) :
    (listPage view page).get? key = view.byKey.get? key :=
  (listMembers_get? (pageGeneration view page) page.members view.byKey key).2 hkey

theorem foldl_put_get? (members : List SyncCatalogMember) (byKey : CatalogMap) (key : String) :
    (∃ member, (members.foldl Table.put byKey).get? key = some member) ↔
      key ∈ members.map (·.streamKey) ∨ ∃ member, byKey.get? key = some member := by
  induction members generalizing byKey with
  | nil => simp
  | cons first rest ih =>
    rw [List.foldl_cons, ih, List.map_cons, List.mem_cons, Table.get?_put]
    by_cases hkey : first.streamKey = key
    · simp [hkey]
    · rw [if_neg hkey]
      have hne : ¬key = first.streamKey := fun hsame => hkey hsame.symm
      simp [hne]

theorem mem_keys {key : String} :
    key ∈ view.keys ↔ ∃ member, view.byKey.get? key = some member := by
  have hfold := foldl_put_get? view.members ∅ key
  unfold SyncCatalogView.keys SyncCatalogView.byKey
  rw [hfold]
  simp

theorem foldl_put_rows (byKey : CatalogMap) : byKey.rows.foldl Table.put ∅ = byKey := by
  have hfold : ∀ (members : List SyncCatalogMember) (stored : CatalogMap),
      ((stored.rows ++ members).map (·.streamKey)).Nodup →
        (members.foldl Table.put stored).rows = stored.rows ++ members := by
    intro members
    induction members with
    | nil =>
      intro stored _
      rw [List.append_nil]
      rfl
    | cons member rest ih =>
      intro stored hnodup
      have hfree : stored.get? member.streamKey = none := by
        apply Table.get?_eq_none.mpr
        intro other hother hsame
        rw [List.map_append, List.nodup_append] at hnodup
        exact hnodup.2.2 _ (List.mem_map_of_mem hother) _ (by simp) hsame
      have hsplit : stored.rows ++ member :: rest = (stored.rows ++ [member]) ++ rest := by simp
      rw [hsplit] at hnodup ⊢
      rw [List.foldl_cons, Table.put_eq_insert hfree]
      exact ih (stored.insert member hfree) hnodup
  apply Table.ext
  exact hfold byKey.rows ∅ byKey.nodup

/-! ### After a page -/

theorem byKey_applied : (applySyncCatalogMembers view page).byKey =
    if page.complete then
      (listPage view page).filter fun member => member.generation = pageGeneration view page
    else listPage view page := by
  unfold SyncCatalogView.byKey
  rw [applySyncCatalogMembers_members]
  split <;> exact foldl_put_rows _

theorem generation_applied :
    (applySyncCatalogMembers view page).generation = some (pageGeneration view page) := by
  unfold pageGeneration startsCensus SyncCatalogView.hasCursor SyncCatalogView.generation
  rw [Option.not_isSome]
  rfl

theorem complete_of_cursor (h : (applySyncCatalogMembers view page).hasCursor = true) :
    page.complete = false := by
  cases hcomplete : page.complete with
  | false => rfl
  | true =>
    unfold SyncCatalogView.hasCursor applySyncCatalogMembers at h
    simp only [hcomplete, if_true, Option.bind_some, present_none] at h
    cases h

theorem pageGeneration_continues (h : startsCensus view page = false) :
    pageGeneration view page = view.generation.getD 1 := by
  unfold pageGeneration
  rw [h]
  rfl

end Listing

/-! ## Censuses -/

/-- A catalog, and what the census in progress has listed; nothing is known of one that was in
progress before the first page. -/
structure CensusState where
  view : SyncCatalogView
  census : Option (List String)

def censusAfter (s : CensusState) (page : ApplySyncCatalogPageInput) : Option (List String) :=
  if startsCensus s.view page then some (listedKeys page)
  else if s.view.hasCursor then s.census.map fun listed => listed ++ listedKeys page
  else none

def CensusState.step (s : CensusState) (page : ApplySyncCatalogPageInput) : CensusState where
  view := applySyncCatalogMembers s.view page
  census := censusAfter s page

/-- What a page does to the catalog as a directory census says it. -/
structure CensusKept (s : CensusState) (page : ApplySyncCatalogPageInput) : Prop where
  /-- Nothing but what the page lists is added, and all of that is there. -/
  added : ∀ key ∈ (s.step page).view.keys, key ∈ s.view.keys ∨ key ∈ listedKeys page
  listed : ∀ key ∈ listedKeys page, key ∈ (s.step page).view.keys
  /-- Until a page completes no member is removed. -/
  unfinished : page.complete = false → ∀ key ∈ s.view.keys, key ∈ (s.step page).view.keys
  /-- A census that completes leaves what its pages have listed. -/
  census : page.complete = true → ∀ listed, censusAfter s page = some listed →
    ∀ key, key ∈ (s.step page).view.keys ↔ key ∈ listed
  /-- A complete page without a census removes no member. -/
  addsOnly : page.complete = true → startsCensus s.view page = false → s.view.hasCursor = false →
    ∀ key ∈ s.view.keys, key ∈ (s.step page).view.keys
  discovered : ∀ member ∈ (s.step page).view.members, ∀ prev,
    s.view.byKey.get? member.streamKey = some prev → member.discoveredAt = prev.discoveredAt
  unique : (s.step page).view.keys.Nodup
  generation : ∀ before ∈ s.view.generation, ∀ after ∈ (s.step page).view.generation,
    before ≤ after

/-- The generations that are stored tell a completing page what to keep: only the members of its
census bear the census's generation, and without a census every member that the page does not list
bears the catalog's. -/
structure NumberedFor (s : CensusState) (page : ApplySyncCatalogPageInput) : Prop where
  census : page.complete = true → ∀ listed, censusAfter s page = some listed →
    ∀ key member, s.view.byKey.get? key = some member →
      member.generation = pageGeneration s.view page → key ∈ listed
  addsOnly : page.complete = true → startsCensus s.view page = false → s.view.hasCursor = false →
    ∀ key member, s.view.byKey.get? key = some member → key ∉ listedKeys page →
      member.generation = pageGeneration s.view page

/-- What the census in progress has listed is stored under its generation. -/
def CensusStored (s : CensusState) : Prop :=
  s.view.hasCursor = true → ∀ listed, s.census = some listed → ∀ key ∈ listed,
    ∃ member, s.view.byKey.get? key = some member ∧ member.generation = s.view.generation.getD 1

section Step

variable {s : CensusState} {page : ApplySyncCatalogPageInput}

/-- What a census has listed with a page bears the page's generation. -/
theorem listed_of_census (h : CensusStored s) {listed : List String}
    (hlisted : censusAfter s page = some listed) :
    (∀ key ∈ listedKeys page, key ∈ listed) ∧
      ∀ key ∈ listed, ∃ member, (listPage s.view page).get? key = some member ∧
        member.generation = pageGeneration s.view page := by
  unfold censusAfter at hlisted
  by_cases hstarts : startsCensus s.view page = true
  · rw [if_pos hstarts] at hlisted
    obtain rfl := Option.some.inj hlisted
    refine ⟨fun key hkey => hkey, fun key hkey => ?_⟩
    obtain ⟨member, hget, hgeneration, -⟩ := listPage_listed hkey
    exact ⟨member, hget, hgeneration⟩
  · rw [if_neg hstarts] at hlisted
    split at hlisted
    · rename_i hcursor
      obtain ⟨earlier, hearlier, rfl⟩ := Option.map_eq_some_iff.mp hlisted
      refine ⟨fun key hkey => List.mem_append_right _ hkey, fun key hkey => ?_⟩
      by_cases hpage : key ∈ listedKeys page
      · obtain ⟨member, hget, hgeneration, -⟩ := listPage_listed hpage
        exact ⟨member, hget, hgeneration⟩
      · rw [listPage_other hpage, pageGeneration_continues (Bool.eq_false_iff.mpr hstarts)]
        exact h hcursor earlier hearlier key ((List.mem_append.mp hkey).resolve_right hpage)
    · cases hlisted

theorem censusStored_step (h : CensusStored s) : CensusStored (s.step page) := by
  intro hcursor listed hlisted key hkey
  obtain ⟨member, hget, hgeneration⟩ := (listed_of_census h hlisted).2 key hkey
  refine ⟨member, ?_, ?_⟩
  · show (applySyncCatalogMembers s.view page).byKey.get? key = some member
    rw [byKey_applied, complete_of_cursor hcursor]
    exact hget
  · show member.generation = (applySyncCatalogMembers s.view page).generation.getD 1
    rw [generation_applied]
    exact hgeneration

theorem mem_keys_step {key : String} : key ∈ (s.step page).view.keys ↔
    ∃ member, (listPage s.view page).get? key = some member ∧
      (page.complete = true → member.generation = pageGeneration s.view page) := by
  rw [mem_keys]
  show (∃ member, (applySyncCatalogMembers s.view page).byKey.get? key = some member) ↔ _
  rw [byKey_applied]
  cases hcomplete : page.complete with
  | false => simp
  | true =>
    simp only [if_true, Table.get?_filter, Option.filter_eq_some_iff, decide_eq_true_eq,
      true_implies]

/-- What every page does, whatever the generations. -/
theorem listPage_known {key : String} {member : SyncCatalogMember}
    (h : (listPage s.view page).get? key = some member) :
    key ∈ s.view.keys ∨ key ∈ listedKeys page := by
  by_cases hkey : key ∈ listedKeys page
  · exact .inr hkey
  · rw [listPage_other hkey] at h
    exact .inl (mem_keys.mpr ⟨member, h⟩)

theorem listPage_of_known {key : String} (h : key ∈ s.view.keys) :
    ∃ member, (listPage s.view page).get? key = some member := by
  by_cases hkey : key ∈ listedKeys page
  · obtain ⟨member, hget, -⟩ := listPage_listed hkey
    exact ⟨member, hget⟩
  · rw [listPage_other hkey]
    exact mem_keys.mp h

theorem members_step : ∃ byKey : CatalogMap, (s.step page).view.members = byKey.rows ∧
    ∀ member ∈ byKey.rows,
      (listPage s.view page).get? member.streamKey = some member := by
  have hmembers : (s.step page).view.members = _ := applySyncCatalogMembers_members
  by_cases hcomplete : page.complete = true
  · rw [if_pos hcomplete] at hmembers
    refine ⟨_, hmembers, fun member hmember => ?_⟩
    exact Table.get?_key (List.mem_filter.mp hmember).1
  · rw [if_neg hcomplete] at hmembers
    exact ⟨_, hmembers, fun member hmember => Table.get?_key hmember⟩

/-- One page does what a census says if and only if the generations tell it what to keep. -/
theorem censusKept_iff (h : CensusStored s) : CensusKept s page ↔ NumberedFor s page := by
  constructor
  · intro hkept
    constructor
    · intro hcomplete listed hlisted key member hget hgeneration
      by_cases hkey : key ∈ listedKeys page
      · exact (listed_of_census h hlisted).1 key hkey
      · apply (hkept.census hcomplete listed hlisted key).mp
        exact mem_keys_step.mpr ⟨member, (listPage_other hkey).trans hget, fun _ => hgeneration⟩
    · intro hcomplete hstarts hcursor key member hget hkey
      have hmem := hkept.addsOnly hcomplete hstarts hcursor key (mem_keys.mpr ⟨member, hget⟩)
      obtain ⟨after, hafter, hgeneration⟩ := mem_keys_step.mp hmem
      rw [listPage_other hkey, hget] at hafter
      obtain rfl := Option.some.inj hafter
      exact hgeneration hcomplete
  · intro hnumbered
    obtain ⟨byKey, hmembers, hrows⟩ := @members_step s page
    constructor
    · intro key hkey
      obtain ⟨member, hget, -⟩ := mem_keys_step.mp hkey
      exact listPage_known hget
    · intro key hkey
      obtain ⟨member, hget, hgeneration, -⟩ := listPage_listed hkey
      exact mem_keys_step.mpr ⟨member, hget, fun _ => hgeneration⟩
    · intro hcomplete key hkey
      obtain ⟨member, hget⟩ := listPage_of_known hkey
      refine mem_keys_step.mpr ⟨member, hget, fun hcontra => ?_⟩
      rw [hcomplete] at hcontra
      cases hcontra
    · intro hcomplete listed hlisted key
      obtain ⟨hpage, hstored⟩ := listed_of_census h hlisted
      constructor
      · intro hkey
        obtain ⟨member, hget, hgeneration⟩ := mem_keys_step.mp hkey
        by_cases hin : key ∈ listedKeys page
        · exact hpage key hin
        · rw [listPage_other hin] at hget
          exact hnumbered.census hcomplete listed hlisted key member hget (hgeneration hcomplete)
      · intro hkey
        obtain ⟨member, hget, hgeneration⟩ := hstored key hkey
        exact mem_keys_step.mpr ⟨member, hget, fun _ => hgeneration⟩
    · intro hcomplete hstarts hcursor key hkey
      by_cases hin : key ∈ listedKeys page
      · obtain ⟨member, hget, hgeneration, -⟩ := listPage_listed hin
        exact mem_keys_step.mpr ⟨member, hget, fun _ => hgeneration⟩
      · obtain ⟨member, hget⟩ := mem_keys.mp hkey
        refine mem_keys_step.mpr ⟨member, (listPage_other hin).trans hget, fun _ => ?_⟩
        exact hnumbered.addsOnly hcomplete hstarts hcursor key member hget hin
    · intro member hmember prev hprev
      have hget := hrows member (hmembers ▸ hmember)
      by_cases hin : member.streamKey ∈ listedKeys page
      · obtain ⟨listed, hlisted, -, hdiscovered⟩ := listPage_listed hin
        obtain rfl := Option.some.inj (hget.symm.trans hlisted)
        exact hdiscovered prev hprev
      · rw [listPage_other hin, hprev] at hget
        obtain rfl := Option.some.inj hget
        rfl
    · unfold SyncCatalogView.keys
      rw [hmembers]
      exact byKey.nodup
    · intro before hbefore after hafter
      have hafter : some (pageGeneration s.view page) = some after :=
        generation_applied.symm.trans hafter
      obtain rfl := Option.some.inj hafter
      have hbefore : s.view.generation = some before := hbefore
      unfold pageGeneration
      rw [hbefore]
      split
      · exact Int.le_of_lt (Int.lt_succ before)
      · exact Int.le_refl before

end Step

/-- A run of pages does what directory censuses say, page by page, if and only if at every page
that completes the stored generations tell it what to keep. -/
theorem census_keeps_what_it_listed (start : SyncCatalogView)
    (pages : List ApplySyncCatalogPageInput) :
    Along CensusState.step CensusKept ⟨start, none⟩ pages ↔
      Along CensusState.step NumberedFor ⟨start, none⟩ pages := by
  apply along_iff CensusState.step CensusStored
  · intro s page hs
    exact censusStored_step hs
  · intro s page hs
    exact censusKept_iff hs
  · intro _ listed hlisted
    cases hlisted

/-! ### An unfinished page without a cursor -/

def firstChat : SyncCatalogMember where
  installationId := "feishu-1"
  streamKey := "chat:a"
  generation := 1
  discoveredAt := 0
  lastSeenAt := 0

def oneChat : SyncCatalogView where
  members := [firstChat]
  catalog := some ⟨"feishu-1", none, true, 1, 0⟩

/-- The directory gave nothing, not even a cursor; the next page is finished and lists one chat. -/
def cursorlessPages : List ApplySyncCatalogPageInput :=
  [{ installationId := "feishu-1", members := [], now := 1, complete := false },
    { installationId := "feishu-1", members := [{ streamKey := "chat:b" }], now := 2,
      complete := true }]

theorem finished_page_removes_chat :
    ¬Along CensusState.step CensusKept ⟨oneChat, none⟩ cursorlessPages := by
  intro h
  have hkept := h.2.1.addsOnly rfl rfl rfl "chat:a" (by decide +kernel)
  revert hkept
  decide +kernel

end Regenic.Sync
