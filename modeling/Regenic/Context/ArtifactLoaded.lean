import Regenic.Context.ArtifactDecoded

/-!
Segments loaded in rounds. What is loaded or pending has everything it refers to loaded or pending
as well; every round loads something, so the loop ends with all that is below its roots, and rows
decode from that as from the whole shelf.
-/

namespace Regenic.Context.Artifacts

open Lib Ingest Assembly

variable {sha256 : Sha256} {isTimestamp : String → Bool}

variable {known : List Segment} {entries : List (String × String)}
  {load : String → Option String}

/-- Where the loop stands. -/
structure Loading (entries : List (String × String)) (roots : List String) (loaded : SegmentMap)
    (pending : List String) : Prop where
  found : ∀ row ∈ loaded.rows, row ∈ entries
  waiting : ∀ hash ∈ pending, hash ∈ entries.map Prod.fst
  below : ∀ row ∈ loaded.rows, ∀ link ∈ textLinks row.2,
    (loaded.get? link).isSome = true ∨ link ∈ pending
  rooted : ∀ root ∈ roots, (loaded.get? root).isSome = true ∨ root ∈ pending

theorem mem_addNew {pending : List String} {hash added : String} :
    hash ∈ addNew pending added ↔ hash ∈ pending ∨ hash = added := by
  unfold addNew
  split
  · next hin =>
    constructor
    · exact .inl
    · rintro (hold | rfl)
      · exact hold
      · exact hin
  · rw [List.mem_append, List.mem_singleton]

theorem mem_foldl_addNew {children pending : List String} {hash : String} :
    hash ∈ children.foldl addNew pending ↔ hash ∈ pending ∨ hash ∈ children := by
  induction children generalizing pending with
  | nil => simp
  | cons child rest ih =>
    rw [List.foldl_cons, ih, mem_addNew, List.mem_cons, or_assoc]

theorem isSome_put {loaded : SegmentMap} {row : String × String} {hash : String} :
    ((loaded.put row).get? hash).isSome = true ↔
      hash = row.1 ∨ (loaded.get? hash).isSome = true := by
  rw [Table.get?_put]
  by_cases hsame : row.1 = hash
  · rw [if_pos hsame]
    exact ⟨fun _ => .inl hsame.symm, fun _ => rfl⟩
  · rw [if_neg hsame]
    constructor
    · exact .inr
    · rintro (heq | hsome)
      · exact absurd heq.symm hsame
      · exact hsome

theorem length_le_put (loaded : SegmentMap) (row : String × String) :
    loaded.rows.length ≤ (loaded.put row).rows.length := by
  unfold Table.put
  split
  · rw [List.length_map]
  · rw [List.length_append]
    omega

theorem length_put_fresh {loaded : SegmentMap} {row : String × String}
    (h : loaded.get? row.1 = none) : (loaded.put row).rows.length = loaded.rows.length + 1 := by
  rw [Table.put_eq_insert h, Table.rows_insert, List.length_append]
  rfl

theorem length_le_entries {roots pending : List String} {loaded : SegmentMap}
    (h : Loading entries roots loaded pending) : loaded.rows.length ≤ entries.length := by
  have hnames : loaded.rows.map Prod.fst ⊆ entries.map Prod.fst := List.map_subset _ h.found
  have hlength := (List.Nodup.subperm loaded.nodup hnames).length_le
  rwa [List.length_map, List.length_map] at hlength

section Rounds

variable (hshelf : Shelf sha256 known entries)
  (hload : ∀ entry ∈ entries, load entry.1 = some entry.2)

include hshelf hload

/-- A segment of the shelf is loaded and checked; its links are on the shelf. -/
theorem checked_of_shelf {hash : String} (h : hash ∈ entries.map Prod.fst) :
    ∃ segment, checkedSegment sha256 hash (load hash) = .ok segment ∧
      (hash, (load hash).getD "") ∈ entries ∧ textLinks ((load hash).getD "") = segment.links ∧
      ∀ link ∈ segment.links, link ∈ entries.map Prod.fst := by
  obtain ⟨entry, hentry, rfl⟩ := List.mem_map.mp h
  obtain ⟨segment, -, hsound, rfl⟩ := hshelf.sound entry hentry
  have hfound : load (segment.hash sha256) = some segment.text := hload _ hentry
  have hlinks := textLinks_text hsound
  refine ⟨segment, ?_, ?_, ?_, ?_⟩
  · change checkedSegment sha256 (segment.hash sha256) (load (segment.hash sha256)) = _
    rw [hfound]
    exact checkedSegment_text hsound
  · change (segment.hash sha256, (load (segment.hash sha256)).getD "") ∈ entries
    rw [hfound]
    exact hentry
  · change textLinks ((load (segment.hash sha256)).getD "") = _
    rw [hfound]
    exact hlinks
  · intro link hlink
    have hbelow : link ∈ textLinks segment.text := by
      rw [hlinks]
      exact hlink
    exact (hshelf.grounded.rank_lt hshelf.nodup hentry hbelow).1

theorem loadRound_loading {roots hashes pending : List String} {loaded : SegmentMap}
    (h : Loading entries roots loaded (hashes ++ pending)) :
    ∃ next, loadRound sha256 load hashes loaded pending = .ok next ∧
      Loading entries roots next.1 next.2 ∧ loaded.rows.length ≤ next.1.rows.length ∧
      ∀ first rest, hashes = first :: rest → loaded.get? first = none →
        loaded.rows.length < next.1.rows.length := by
  induction hashes generalizing loaded pending with
  | nil => exact ⟨(loaded, pending), rfl, h, le_refl _, nofun⟩
  | cons hash rest ih =>
    obtain ⟨segment, hchecked, hentry, htext, hlinks⟩ := checked_of_shelf hshelf hload
      (h.waiting hash (List.mem_append_left _ List.mem_cons_self))
    generalize hnext : loaded.put (hash, (load hash).getD "") = next
    generalize hchildren : (segment.links.filter fun child => (next.get? child).isNone).foldl addNew
      pending = children
    have hpending : ∀ link, link ∈ children ↔ link ∈ pending ∨
        link ∈ segment.links ∧ (next.get? link).isNone = true := by
      intro link
      rw [← hchildren, mem_foldl_addNew, List.mem_filter]
    have hkept : ∀ link, ((loaded.get? link).isSome = true ∨ link ∈ hash :: rest ++ pending) →
        (next.get? link).isSome = true ∨ link ∈ rest ++ children := by
      rintro link (hsome | hin)
      · rw [← hnext]
        exact .inl (isSome_put.mpr (.inr hsome))
      · rw [List.cons_append] at hin
        rcases List.mem_cons.mp hin with rfl | hlater
        · rw [← hnext]
          exact .inl (isSome_put.mpr (.inl rfl))
        · refine .inr ?_
          rcases List.mem_append.mp hlater with hrest | hold
          · exact List.mem_append_left _ hrest
          · exact List.mem_append_right _ ((hpending link).mpr (.inl hold))
    have hloading : Loading entries roots next (rest ++ children) := by
      refine ⟨?_, ?_, ?_, fun root hroot => hkept root (h.rooted root hroot)⟩
      · intro row hrow
        rw [← hnext] at hrow
        rcases Table.mem_put.mp hrow with rfl | ⟨hold, -⟩
        · exact hentry
        · exact h.found row hold
      · intro link hlink
        rcases List.mem_append.mp hlink with hrest | hchild
        · exact h.waiting link (List.mem_append_left _ (List.mem_cons_of_mem _ hrest))
        · rcases (hpending link).mp hchild with hold | ⟨hbelow, -⟩
          · exact h.waiting link (List.mem_append_right _ hold)
          · exact hlinks link hbelow
      · intro row hrow link hlink
        rw [← hnext] at hrow
        rcases Table.mem_put.mp hrow with rfl | ⟨hold, -⟩
        · rw [htext] at hlink
          cases hpresent : next.get? link with
          | some found => exact .inl rfl
          | none =>
            refine .inr (List.mem_append_right _ ((hpending link).mpr (.inr ⟨hlink, ?_⟩)))
            rw [hpresent]
            rfl
        · exact hkept link (h.below row hold link hlink)
    obtain ⟨last, hround, hlast, hgrown, -⟩ := ih hloading
    have hput := length_le_put loaded (hash, (load hash).getD "")
    rw [hnext] at hput
    refine ⟨last, ?_, hlast, hput.trans hgrown, ?_⟩
    · rw [loadRound, hchecked]
      simp only [bind, Except.bind, hnext, hchildren]
      exact hround
    · rintro first others ⟨⟩ hfresh
      have hlonger := @length_put_fresh loaded (hash, (load hash).getD "") hfresh
      rw [hnext] at hlonger
      omega

/-- The loop ends, with everything below its roots loaded. -/
theorem loadAll_loading {roots pending : List String} {loaded : SegmentMap} {fuel : Nat}
    (h : Loading entries roots loaded pending)
    (hfresh : ∀ hash ∈ pending, loaded.get? hash = none)
    (hfuel : entries.length ≤ fuel + loaded.rows.length) :
    ∃ last, loadAll sha256 load fuel loaded pending = .ok last ∧ Loading entries roots last [] := by
  induction fuel generalizing loaded pending with
  | zero =>
    cases pending with
    | nil => exact ⟨loaded, by rw [loadAll], h⟩
    | cons hash rest =>
      exfalso
      have hstart : Loading entries roots loaded (hash :: rest ++ []) := by
        rw [List.append_nil]
        exact h
      obtain ⟨next, -, hnext, -, hgrown⟩ := loadRound_loading hshelf hload hstart
      have hlonger := hgrown hash rest rfl (hfresh hash List.mem_cons_self)
      have hall := length_le_entries hnext
      omega
  | succ fuel ih =>
    cases pending with
    | nil => exact ⟨loaded, by rw [loadAll], h⟩
    | cons hash rest =>
      have hstart : Loading entries roots loaded (hash :: rest ++ []) := by
        rw [List.append_nil]
        exact h
      obtain ⟨next, hround, hnext, -, hgrown⟩ := loadRound_loading hshelf hload hstart
      have hlonger := hgrown hash rest rfl (hfresh hash List.mem_cons_self)
      have hleft : ∀ {link}, ((next.1.get? link).isSome = true ∨ link ∈ next.2) →
          (next.1.get? link).isSome = true ∨
            link ∈ next.2.filter fun child => (next.1.get? child).isNone := by
        rintro link (hsome | hin)
        · exact .inl hsome
        · cases hpresent : next.1.get? link with
          | some found => exact .inl rfl
          | none =>
            refine .inr (List.mem_filter.mpr ⟨hin, ?_⟩)
            rw [hpresent]
            rfl
      have hfiltered : Loading entries roots next.1
          (next.2.filter fun child => (next.1.get? child).isNone) :=
        ⟨hnext.found, fun link hlink => hnext.waiting link (List.mem_filter.mp hlink).1,
          fun row hrow link hlink => hleft (hnext.below row hrow link hlink),
          fun root hroot => hleft (hnext.rooted root hroot)⟩
      obtain ⟨last, hrest, hlast⟩ := ih hfiltered
        (fun link hlink => Option.isNone_iff_eq_none.mp (List.mem_filter.mp hlink).2) (by omega)
      refine ⟨last, ?_, hlast⟩
      rw [loadAll, hround]
      exact hrest

/-- What was loaded decodes as the whole shelf does. -/
theorem decoded_of_loaded {roots : List String} {loaded : SegmentMap}
    (h : Loading entries roots loaded []) {fuel : Nat} {orgId payload : String} {own : List String}
    (hown : rootsOf orgId payload = .ok own) (hin : ∀ root ∈ own, root ∈ roots) :
    contextArtifactDecoder sha256 (fun hash => (loaded.get? hash).map Prod.snd) isTimestamp fuel
      orgId payload = contextArtifactDecoder sha256 load isTimestamp fuel orgId payload := by
  have hentry : ∀ hash, (loaded.get? hash).isSome = true → ∃ text, loaded.get? hash =
      some (hash, text) ∧ (hash, text) ∈ entries := by
    intro hash hsome
    obtain ⟨⟨name, text⟩, hrow⟩ := Option.isSome_iff_exists.mp hsome
    obtain ⟨hmem, hname⟩ := Table.get?_eq_some.mp hrow
    obtain rfl : name = hash := hname
    exact ⟨text, hrow, h.found _ hmem⟩
  have hroots : ∀ root ∈ own, (loaded.get? root).isSome = true := fun root hroot =>
    (h.rooted root (hin root hroot)).resolve_right List.not_mem_nil
  refine decoder_congr ?_ ?_ hown hroots
  · intro hash hsome
    obtain ⟨text, hrow, hmem⟩ := hentry hash hsome
    have hfound : load hash = some text := hload _ hmem
    simp only [hrow, hfound, Option.map_some]
  · intro hash hsome segment hchecked link hlink
    obtain ⟨text, hrow, hmem⟩ := hentry hash hsome
    have hfound : load hash = some text := hload _ hmem
    obtain ⟨found, hchecked', -, htext, -⟩ := checked_of_shelf hshelf hload
      (List.mem_map_of_mem (f := Prod.fst) hmem)
    obtain rfl : found = segment := Except.ok.inj (hchecked'.symm.trans hchecked)
    have hlinks : link ∈ textLinks text := by
      simp only [hfound, Option.getD_some] at htext
      rw [htext]
      exact hlink
    exact (h.below (hash, text) (Table.get?_eq_some.mp hrow).1 link hlinks).resolve_right
      List.not_mem_nil

end Rounds

end Regenic.Context.Artifacts
