import Regenic.Embedding.Plans

/-!
What a run makes of an event, of a job and of a claim. Whatever it is answered, it takes up the
checkpoint that it has loaded, keeps to the plan of the event, and publishes it as a whole.
-/

namespace Regenic.Embedding

open Lib

section Runs

variable {plan : EmbeddingJob → Plan}
variable {m : RunMode}

/-! ## Materials -/

section Materials

variable {platform : EmbeddingPlatform} {provider : EmbeddingProvider} {lease : Lease}
variable {rows staged : List ContextVectorChunk} {state : Progress} {thrown : EmbedThrown}
  {part total : Plan} {generation : EmbeddingGeneration}
  {parts : List ContextSearchPart}

/-- The checkpoint that the run has loaded is a beginning of the plan, whose chunks follow each
other. -/
structure Loaded (total : Plan) (m : RunMode) (staged : List ContextVectorChunk) : Prop where
  staged : staged = (total.rows.take m.found).map ContextVectorChunk.stored
  found : m.found ≤ total.rows.length
  tiled : Tiles 0 0 total.rows

/-- The program comes to the end of a part of the plan, or ends as the run may end. -/
def Carries (plan : EmbeddingJob → Plan) (lease : Lease) (part : Plan) (m : RunMode)
    (p : WorkerProg Progress) : Prop :=
  FollowsPlan plan (Ends (plan lease.job) fun m' state' =>
    part.stop = none ∧ m'.found = m.found ∧ Stands m' part.rows state') m p

theorem Stands.length_eq (h : Stands m rows state) : state.chunks.length = rows.length := by
  have hlength := congrArg List.length h.chunks
  simpa using hlength

theorem Stands.placedText_eq (h : Stands m rows state) (value : CodeUnits)
    (origin : Option PartBinding) :
    placedText parts state.chunks value origin = placedText parts rows value origin := by
  unfold placedText
  rw [h.length_eq, lastStop_congr h.chunks]

theorem Loaded.congr {m' : RunMode} (h : Loaded total m staged) (hfound : m'.found = m.found) :
    Loaded total m' staged :=
  ⟨hfound ▸ h.staged, hfound ▸ h.found, h.tiled⟩

theorem carries_appendText {value : CodeUnits} {origin : Option PartBinding} (hvalue : value ≠ [])
    (hleads : (planText platform provider lease.generation parts rows value origin).Leads
      (plan lease.job)) (hloaded : Loaded (plan lease.job) m staged) (h : Stands m rows state) :
    Carries plan lease (planText platform provider lease.generation parts rows value origin) m
      (appendText platform provider lease parts staged state value origin) := by
  obtain ⟨⟨after, hrows⟩, hlast⟩ := hleads
  obtain ⟨hfits, hlength, rest, hflatten, -, hrest⟩ := @sliceText_fits provider
    lease.generation.chunkTokens (lease.generation.maxChunksPerEvent - rows.length) value hvalue
  unfold appendText
  simp only [h.placedText_eq]
  unfold planText at hrows hlast ⊢
  simp only at hrows hlast ⊢
  generalize htext : placedText parts rows value origin = text at *
  have hordinal : rows.length = text.ordinal := htext ▸ rfl
  have hstart : lastStop rows = text.start := htext ▸ rfl
  have hsame : value = text.value := htext ▸ rfl
  rw [hordinal] at hlength hfits hflatten hrest hrows hlast ⊢
  subst hsame
  generalize hcut : sliceText provider lease.generation.chunkTokens
    (lease.generation.maxChunksPerEvent - text.ordinal) text.value = cut at *
  have htotal := congrArg List.length hrows
  simp only [List.length_append, List.length_map, sliceChunks_length] at htotal
  -- What the plan holds after the text lies behind it.
  have hnone : after ≠ [] → cut.2 = none := by
    intro hmore
    by_contra hstop
    rw [← hlast hstop] at hrows
    exact hmore (List.append_cancel_left (hrows.trans (List.append_nil _).symm))
  have hafter : ∀ chunk ∈ after, text.start + text.value.length < chunk.stop := by
    intro chunk hmem
    have hwhole := hflatten
    rw [hrest (hnone (List.ne_nil_of_mem hmem)), List.append_nil] at hwhole
    have htiles := hloaded.tiled
    rw [← hrows] at htiles
    refine stop_of_afterText (fun hempty => hvalue ?_) hwhole htiles chunk hmem
    rw [← hwhole, hempty]
    rfl
  have hwithin : cut.1.flatten.length ≤ text.value.length := by
    rw [← hflatten, List.length_append]
    exact Nat.le_add_right _ _
  have hstaged : text.staged staged =
      (sliceChunks platform provider 0 0
        (cut.1.take (min (m.found - text.ordinal) cut.1.length))).map text.resumed := by
    rw [hloaded.staged, ← hrows, staged_text hordinal hwithin hafter]
    congr 2
    exact List.take_eq_take_iff.mpr (by omega)
  have hplace := h.place
  rw [hordinal] at hplace
  have hplanned : TextPlanned platform provider text lease (plan lease.job) cut.1 :=
    ⟨⟨rows, hordinal, after, hrows⟩, hlength⟩
  have hstop : ∀ thrown, cut.2 = some thrown → (plan lease.job).stop = some thrown := by
    intro thrown hthrown
    rw [← hlast (by rw [hthrown]; exact Option.some_ne_none _), hthrown]
  have hfound : TextFound platform provider text m cut
      (min (m.found - text.ordinal) cut.1.length) (text.staged staged) := by
    refine ⟨Nat.min_le_right _ _, ?_, ?_⟩
    · rw [hstaged, List.forall₂_map_left_iff]
      exact List.forall₂_same.mpr fun chunk _ => ⟨rfl, rfl, rfl, rfl⟩
    · by_cases hmore : m.found ≤ text.ordinal + cut.1.length
      · left
        omega
      · right
        have hle := hloaded.found
        refine ⟨by omega, hnone fun hempty => ?_⟩
        rw [hempty, List.length_nil] at htotal
        omega
  have hstands : TextStands platform provider text m
      (cut.1.take (min (m.found - text.ordinal) cut.1.length))
      { chunks := text.staged staged, freshChunks := m.accepted } := by
    refine ⟨?_, rfl, h.room, ?_⟩
    · simp only [hstaged, List.map_map]
      refine List.map_congr_left fun chunk _ => ?_
      exact bind_resumed chunk
    · rw [List.length_take]
      omega
  rw [h.fresh]
  refine follows_bind (follows_chunkEmbeddingText hvalue hcut hplanned hstop hfound hstands) ?_
  rintro m' state' ⟨hended, hfound', htext'⟩
  refine Follows.done ⟨hended, hfound', ?_, htext'.fresh, htext'.room, ?_⟩
  · simp only [List.map_append, h.chunks, htext'.chunks]
  · rw [htext'.place, List.length_append, List.length_map, sliceChunks_length, hordinal]

theorem Plan.Leads.stop (h : part.Leads total) (hstop : part.stop = some thrown) :
    total.stop = some thrown := by
  rw [← h.2 (by rw [hstop]; exact Option.some_ne_none _), hstop]

theorem carries_done (h : Stands m rows state) : Carries plan lease { rows } m (pure state) :=
  Follows.done ⟨rfl, rfl, h⟩

theorem carries_fail (hleads : part.Leads (plan lease.job)) (hstop : part.stop = some thrown) :
    Carries plan lease part m (.fail thrown) :=
  Follows.fail (Or.inr (Or.inr (hleads.stop hstop)))

/-- The check throws where the plan ends so. -/
theorem carries_throwIf {bad : Bool} {p : WorkerProg Progress}
    (hleads : part.Leads (plan lease.job)) (hbad : bad = true → part.stop = some thrown)
    (hgood : bad = false → Carries plan lease part m p) :
    Carries plan lease part m (throwIf bad thrown >>= fun _ => p) := by
  cases bad with
  | true => exact carries_fail hleads (hbad rfl)
  | false => exact hgood rfl

theorem carries_bind {first : Plan} {next : List ContextVectorChunk → Plan}
    {p : WorkerProg Progress} {f : Progress → WorkerProg Progress}
    (hp : Carries plan lease first m p)
    (hf : ∀ m' state', first.stop = none → m'.found = m.found → Stands m' first.rows state' →
      Carries plan lease (next first.rows) m' (f state')) :
    Carries plan lease (first.andThen next) m (p >>= f) := by
  refine follows_bind hp ?_
  rintro m' state' ⟨hstop, hfound, hstands⟩
  refine (hf m' state' hstop hfound hstands).mono fun m'' r hr => ?_
  rw [Plan.andThen_none hstop]
  cases r with
  | error thrown => exact hr
  | ok state'' => exact ⟨hr.1, hr.2.1.trans hfound, hr.2.2⟩

/-- A step of the plan for each step of the program. -/
theorem carries_each {α : Type} {step : List ContextVectorChunk → α → Plan}
    {f : Progress → α → WorkerProg Progress} (hextends : ∀ a, Plan.Extends fun rows => step rows a)
    (hstep : ∀ {m rows state} a, (step rows a).Leads (plan lease.job) →
      Loaded (plan lease.job) m staged → Stands m rows state →
        Carries plan lease (step rows a) m (f state a)) (list : List α)
    (hleads : (Plan.each step list rows).Leads (plan lease.job))
    (hloaded : Loaded (plan lease.job) m staged) (h : Stands m rows state) :
    Carries plan lease (Plan.each step list rows) m (list.foldlM f state) := by
  induction list generalizing m rows state with
  | nil => exact carries_done h
  | cons a rest ih =>
    rw [List.foldlM_cons]
    refine carries_bind (hstep a (hleads.first (Plan.Extends.each hextends rest)) hloaded h) ?_
    intro m' state' hstop hfound hstands
    exact ih (hleads.next hstop) (hloaded.congr hfound) hstands

/-! ### What a plan keeps -/

theorem readable_some {text : Option CodeUnits} {value : CodeUnits}
    (h : readable text = some value) : text = some value ∧ value ≠ [] := by
  obtain ⟨htext, hblank⟩ := Option.filter_eq_some_iff.mp h
  refine ⟨htext, ?_⟩
  rintro rfl
  cases hblank

theorem tiles_bound {text : PlacedText} {slices : List CodeUnits} (ordinal start : Nat)
    (hne : ∀ slice ∈ slices, slice ≠ []) : Tiles (text.ordinal + ordinal) (text.start + start)
      ((sliceChunks platform provider ordinal start slices).map text.bind) := by
  induction slices generalizing ordinal start with
  | nil => exact trivial
  | cons slice rest ih =>
    have hslice := List.length_pos_iff.mpr (hne slice List.mem_cons_self)
    refine ⟨rfl, rfl, ?_, ih (ordinal + 1) (start + slice.length)
      fun other hother => hne other (List.mem_cons_of_mem _ hother)⟩
    simp only [PlacedText.bind, sliceChunk]
    omega

theorem planVisual_extends (generation : EmbeddingGeneration)
    (attachment : ContextEmbeddingAttachment) (entry : List ℚ × Nat) :
    Plan.Extends fun rows => planVisual platform generation attachment rows entry := by
  intro rows
  unfold planVisual
  simp only
  split
  · exact ⟨[], (List.append_nil rows).symm, trivial⟩
  · exact ⟨_, rfl, rfl, rfl, Nat.lt_succ_self _, trivial⟩

theorem planReadable_extends (generation : EmbeddingGeneration) (text : Option CodeUnits)
    (origin : Option PartBinding) :
    Plan.Extends fun rows => planReadable platform provider generation parts rows text origin := by
  intro rows
  unfold planReadable
  simp only
  split
  · exact ⟨[], (List.append_nil rows).symm, trivial⟩
  · next value htext =>
    split
    · exact ⟨[], (List.append_nil rows).symm, trivial⟩
    · obtain ⟨hfits, -⟩ := @sliceText_fits provider generation.chunkTokens
        (generation.maxChunksPerEvent - rows.length) value (readable_some htext).2
      have htiles := @tiles_bound platform provider (placedText parts rows value origin) _ 0 0
        fun slice hmem => (hfits slice hmem).1
      exact ⟨_, rfl, htiles⟩

theorem planCount_extends (generation : EmbeddingGeneration) :
    Plan.Extends (planCount generation) := fun _ => Plan.Extends.of_eq rfl

theorem planPictures_extends (generation : EmbeddingGeneration)
    (attachment : ContextEmbeddingAttachment) (vectors : List (List ℚ)) :
    Plan.Extends (planPictures platform provider generation attachment vectors) := by
  intro rows
  unfold planPictures
  split
  · exact ⟨[], (List.append_nil rows).symm, trivial⟩
  · exact (Plan.Extends.each (planVisual_extends generation attachment) _).andThen
      (planCount_extends generation) rows

theorem planAttachment_extends (generation : EmbeddingGeneration)
    (process : EmbeddingAttachmentInput → ProcessedEmbeddingAttachment)
    (attachment : ContextEmbeddingAttachment) :
    Plan.Extends fun rows =>
      planAttachment platform provider generation parts process rows attachment := by
  intro rows
  unfold planAttachment
  simp only
  split
  · exact ⟨[], (List.append_nil rows).symm, trivial⟩
  · exact (planReadable_extends generation _ _).andThen
      (planPictures_extends generation attachment _) rows

theorem planAttachments_extends (generation : EmbeddingGeneration)
    (attachments : List ContextEmbeddingAttachment) :
    Plan.Extends (planAttachments platform provider generation parts attachments) := by
  intro rows
  unfold planAttachments
  split
  · exact ⟨[], (List.append_nil rows).symm, trivial⟩
  · split
    · exact ⟨[], (List.append_nil rows).symm, trivial⟩
    · exact Plan.Extends.each (planAttachment_extends generation _) attachments rows

theorem planContent_extends (generation : EmbeddingGeneration)
    (material : ContextEmbeddingMaterial) :
    Plan.Extends (planContent provider generation material) := fun _ => Plan.Extends.of_eq rfl

theorem planMaterial_extends (generation : EmbeddingGeneration)
    (material : ContextEmbeddingMaterial) : Plan.Extends fun rows =>
      ((planReadable platform provider generation material.searchParts rows material.text
        none).andThen (planAttachments platform provider generation material.searchParts
          material.attachments)).andThen (planContent provider generation material) :=
  ((planReadable_extends generation material.text none).andThen
    (planAttachments_extends generation material.attachments)).andThen
      (planContent_extends generation material)

theorem tiles_planMaterial (generation : EmbeddingGeneration)
    (material : ContextEmbeddingMaterial) :
    Tiles 0 0 (planMaterial platform provider generation material).rows := by
  obtain ⟨more, hmore, htiles⟩ :=
    @planMaterial_extends platform provider generation material []
  exact (congrArg (Tiles 0 0) hmore).mpr htiles

theorem tiles_planEvent (generation : EmbeddingGeneration) (source : EmbeddingSource)
    (eventId : String) :
    Tiles 0 0 (planEvent platform provider generation source eventId).rows := by
  unfold planEvent
  split
  · exact trivial
  · split
    · exact trivial
    · exact tiles_planMaterial generation _

/-! ### What a run makes of a material -/

theorem follows_saveChunk_tooLarge {chunk : ContextVectorChunk} {freshChunks : Nat}
    {good : RunMode → Nat → Prop} (hordinal : lease.generation.maxChunksPerEvent ≤ chunk.ordinal)
    (hstop : (plan lease.job).stop = some tooLarge) :
    FollowsPlan plan (Ends (plan lease.job) good) m (saveChunk lease freshChunks chunk) := by
  unfold saveChunk
  rw [decide_eq_true hordinal]
  exact Follows.fail (Or.inr (Or.inr hstop))

/-- A picture that comes back out of a checkpoint keeps its origin. -/
theorem stored_kept (chunk : ContextVectorChunk) : ContextVectorChunk.stored
    { chunk.stored with origin := chunk.origin <|> chunk.stored.origin } = chunk.stored := by
  have hsame : { chunk.stored with origin := chunk.origin <|> chunk.stored.origin } =
      chunk.stored := by
    rw [stored_origin]
    cases chunk with
    | mk ordinal start stop textHash vector origin => cases origin <;> rfl
  rw [hsame, stored_stored]

theorem carries_appendVisual {attachment : ContextEmbeddingAttachment} (entry : List ℚ × Nat)
    (hleads : (planVisual platform lease.generation attachment rows entry).Leads (plan lease.job))
    (hloaded : Loaded (plan lease.job) m staged) (h : Stands m rows state) :
    Carries plan lease (planVisual platform lease.generation attachment rows entry) m
      (appendVisual platform lease staged attachment state entry) := by
  have hchunk : visualChunk platform attachment state.chunks entry.2 entry.1 =
      visualChunk platform attachment rows entry.2 entry.1 := by
    unfold visualChunk
    rw [h.length_eq, lastStop_congr h.chunks]
  have hordinal : (visualChunk platform attachment rows entry.2 entry.1).ordinal = rows.length :=
    rfl
  unfold appendVisual
  simp only [hchunk, hordinal, hloaded.staged, List.getElem?_map]
  unfold planVisual at hleads ⊢
  by_cases hfull : lease.generation.maxChunksPerEvent ≤ rows.length
  · rw [if_pos hfull] at hleads ⊢
    have htotal : { rows, stop := some tooLarge } = plan lease.job :=
      hleads.2 (Option.some_ne_none _)
    have hnone : ((plan lease.job).rows.take m.found)[rows.length]? = none := by
      rw [List.getElem?_eq_none_iff, List.length_take, ← htotal]
      exact Nat.min_le_right _ _
    rw [hnone]
    have hsave : FollowsPlan plan (Ends (plan lease.job) fun _ (_ : Nat) => False) m
        (saveChunk lease state.freshChunks
          (visualChunk platform attachment rows entry.2 entry.1)) :=
      follows_saveChunk_tooLarge hfull (hleads.stop rfl)
    exact follows_bind hsave fun _ _ hfalse => hfalse.elim
  · rw [if_neg hfull] at hleads ⊢
    generalize visualChunk platform attachment rows entry.2 entry.1 = chunk at *
    have hrow : (plan lease.job).rows[rows.length]? = some chunk := by
      obtain ⟨after, hrows⟩ := hleads.1
      rw [← hrows]
      simp
    by_cases hfound : rows.length < m.found
    · rw [List.getElem?_take_of_lt hfound, hrow, Option.map_some]
      refine follows_bind (follows_throwIf fun hbad => ?_) ?_
      · simp at hbad
      rintro m _ ⟨rfl, -⟩
      refine Follows.done ⟨rfl, rfl, ?_, h.fresh, h.room, ?_⟩
      · rw [List.map_append, List.map_append, h.chunks, List.map_singleton, stored_kept]
        rfl
      · rw [h.place, List.length_append, List.length_singleton]
        omega
    · rw [List.getElem?_eq_none_iff.mpr (by rw [List.length_take]; omega), Option.map_none]
      simp only
      have hplace : m.found + m.accepted = rows.length := by
        rw [h.place]
        omega
      rw [h.fresh]
      refine follows_bind (follows_saveChunk h.room (by omega) (hplace ▸ hrow)) ?_
      rintro m' freshChunks ⟨hfound', haccepted, hfresh, hroom⟩
      refine Follows.done ⟨rfl, hfound', ?_, hfresh, hroom, ?_⟩
      · simp only [List.map_append, h.chunks]
      · rw [hfound', haccepted, List.length_append, List.length_singleton]
        omega

theorem carries_appendAttachment {process : EmbeddingAttachmentInput → ProcessedEmbeddingAttachment}
    (attachment : ContextEmbeddingAttachment)
    (hleads : (planAttachment platform provider lease.generation parts process rows
      attachment).Leads (plan lease.job)) (hloaded : Loaded (plan lease.job) m staged)
    (h : Stands m rows state) :
    Carries plan lease
      (planAttachment platform provider lease.generation parts process rows attachment) m
      (appendAttachment platform provider lease parts staged process state attachment) := by
  unfold appendAttachment planAttachment at *
  refine follows_bind follows_reach ?_
  rintro m _ rfl
  simp only at hleads ⊢
  generalize process (attachmentInput attachment) = processed at *
  refine carries_throwIf hleads (fun hbad => by rw [if_pos hbad]) fun hgood => ?_
  rw [if_neg (by rw [hgood]; exact Bool.false_ne_true)] at hleads ⊢
  refine carries_bind ?_ ?_
  · have hfirst := hleads.first (planPictures_extends lease.generation attachment _)
    unfold planReadable at hfirst ⊢
    unfold appendAttachmentText
    cases htext : readable processed.text with
    | none => exact carries_done h
    | some value =>
      rw [htext] at hfirst
      simp only at hfirst ⊢
      refine carries_throwIf hfirst (fun hbad => by rw [if_pos (of_decide_eq_true hbad)])
        fun hfits => ?_
      rw [if_neg (of_decide_eq_false hfits)] at hfirst ⊢
      exact carries_appendText (readable_some htext).2 hfirst hloaded h
  · intro m' state' hstop hfound hstands
    have hnext := hleads.next hstop
    unfold planPictures at hnext ⊢
    refine carries_throwIf hnext (fun hbad => by rw [if_pos hbad]) fun hallowed => ?_
    rw [if_neg (by rw [hallowed]; exact Bool.false_ne_true)] at hnext ⊢
    refine carries_bind (carries_each (planVisual_extends lease.generation attachment)
      carries_appendVisual _ (hnext.first (planCount_extends lease.generation))
      (hloaded.congr hfound) hstands) ?_
    intro m'' state'' hstop' hfound' hstands'
    have hcount := hnext.next hstop'
    unfold planCount at hcount ⊢
    refine carries_throwIf hcount (fun hbad => ?_) fun hfits => ?_
    · rw [hstands'.length_eq] at hbad
      exact if_pos (of_decide_eq_true hbad)
    · rw [hstands'.length_eq] at hfits
      rw [if_neg (of_decide_eq_false hfits)]
      exact carries_done hstands'

theorem carries_appendAttachments {attachments : List ContextEmbeddingAttachment}
    (hleads : (planAttachments platform provider lease.generation parts attachments rows).Leads
      (plan lease.job)) (hloaded : Loaded (plan lease.job) m staged) (h : Stands m rows state) :
    Carries plan lease
      (planAttachments platform provider lease.generation parts attachments rows) m
      (appendAttachments platform provider lease parts staged attachments state) := by
  unfold appendAttachments planAttachments at *
  split
  · exact carries_done h
  · next hsome =>
    rw [if_neg hsome] at hleads
    cases hprocess : provider.processAttachment with
    | none =>
      rw [hprocess] at hleads
      exact carries_fail hleads rfl
    | some process =>
      rw [hprocess] at hleads
      exact carries_each (planAttachment_extends lease.generation process)
        carries_appendAttachment attachments hleads hloaded h

/-- What a run makes of a material is the plan of it, up to the check of what it comes to. -/
theorem carries_appendMaterial {material : ContextEmbeddingMaterial}
    (hfits : (material.text.any fun text => maxTextBytes < utf8Length text) = false)
    (hroom : m.accepted = 0)
    (hleads : ((planReadable platform provider lease.generation material.searchParts []
      material.text none).andThen (planAttachments platform provider lease.generation
        material.searchParts material.attachments)).Leads (plan lease.job))
    (hloaded : Loaded (plan lease.job) m staged) :
    Carries plan lease ((planReadable platform provider lease.generation material.searchParts []
      material.text none).andThen (planAttachments platform provider lease.generation
        material.searchParts material.attachments)) m
      (appendMaterial platform provider lease staged material) := by
  have hempty : Stands m [] {} := by
    refine ⟨rfl, hroom.symm, ?_, ?_⟩
    · rw [hroom]
      decide
    · rw [hroom]
      simp
  unfold appendMaterial
  refine carries_bind ?_ ?_
  · have hfirst := hleads.first (planAttachments_extends lease.generation material.attachments)
    unfold planReadable at hfirst ⊢
    unfold appendBody
    cases htext : readable material.text with
    | none => exact carries_done hempty
    | some value =>
      obtain ⟨hvalue, hne⟩ := readable_some htext
      rw [hvalue, Option.any_some] at hfits
      rw [htext] at hfirst
      simp only at hfirst ⊢
      rw [if_neg (of_decide_eq_false hfits)] at hfirst ⊢
      exact carries_appendText hne hfirst hloaded hempty
  · intro m' state' hstop hfound hstands
    exact carries_appendAttachments (hleads.next hstop) (hloaded.congr hfound) hstands

end Materials

/-! ## Jobs -/

section Jobs

variable {platform : EmbeddingPlatform} {provider : EmbeddingProvider} {source : EmbeddingSource}
  {lease : Lease}

theorem noContent_congr {generation : EmbeddingGeneration} {material : ContextEmbeddingMaterial}
    {chunks rows : List ContextVectorChunk} (h : chunks.length = rows.length) :
    noContent provider generation material chunks =
      noContent provider generation material rows := by
  have hempty : chunks.isEmpty = rows.isEmpty := by
    rw [Bool.eq_iff_iff, List.isEmpty_iff_length_eq_zero, List.isEmpty_iff_length_eq_zero, h]
  unfold noContent
  rw [hempty]

/-- What a run that comes to the end of its event has: the plan as a whole. -/
structure Embedded (total : Plan) (m : RunMode) (chunks : List ContextVectorChunk) (empty : Bool) :
    Prop where
  stop : total.stop = none
  rows : chunks.map ContextVectorChunk.stored = total.rows.map ContextVectorChunk.stored
  empty : empty = chunks.isEmpty
  staged : m.found + m.accepted = total.rows.length

theorem follows_embedEvent (m : RunMode)
    (hplan : plan lease.job =
      planEvent platform provider lease.generation source lease.job.eventId) :
    FollowsPlan plan (Ends (plan lease.job) fun m' embedded =>
        Embedded (plan lease.job) m' embedded.1 embedded.2) m
      (embedEvent platform provider source lease) := by
  have htiled : Tiles 0 0 (plan lease.job).rows := hplan ▸ tiles_planEvent _ _ _
  unfold embedEvent
  refine follows_bind follows_reach ?_
  rintro m _ rfl
  unfold planEvent at hplan
  refine follows_bind (follows_liftThrown fun thrown hthrown => ?_) ?_
  · rw [hthrown] at hplan
    exact Or.inr (Or.inr (congrArg Plan.stop hplan))
  rintro m material ⟨rfl, hmaterial⟩
  rw [hmaterial] at hplan
  simp only at hplan
  refine follows_bind (follows_throwIf fun hbad => ?_) ?_
  · rw [if_pos hbad] at hplan
    exact Or.inr (Or.inr (congrArg Plan.stop hplan))
  rintro m _ ⟨rfl, hfits⟩
  rw [if_neg (by rw [hfits]; exact Bool.false_ne_true)] at hplan
  refine follows_bind follows_now ?_
  rintro m now rfl
  refine Follows.call trivial
    fun (answer : Except EmbedThrown (List ContextVectorChunk)) hanswer => ?_
  cases answer with
  | error thrown => exact Follows.fail (Or.inl rfl)
  | ok staged =>
    change FollowsPlan plan _ { m with found := staged.length, accepted := 0 }
      (appendMaterial platform provider lease staged material >>= _)
    have hbeginning : staged <+: (plan lease.job).rows.map ContextVectorChunk.stored := hanswer
    have hloaded : Loaded (plan lease.job) { m with found := staged.length, accepted := 0 }
        staged := by
      refine ⟨?_, ?_, htiled⟩
      · rw [List.map_take]
        exact List.prefix_iff_eq_take.mp hbeginning
      · simpa using hbeginning.length_le
    have hleads : (planMaterial platform provider lease.generation material).Leads
        (plan lease.job) := by
      rw [hplan]
      exact ⟨List.prefix_refl _, fun _ => rfl⟩
    unfold planMaterial at hplan hleads
    have hrun := carries_appendMaterial hfits rfl (hleads.first (planContent_extends _ _)) hloaded
    generalize (planReadable platform provider lease.generation material.searchParts []
      material.text none).andThen (planAttachments platform provider lease.generation
        material.searchParts material.attachments) = part at hplan hrun
    refine follows_bind hrun ?_
    rintro m' state ⟨hstop, hfound, hstands⟩
    have hcontent : plan lease.job = planContent provider lease.generation material part.rows := by
      rw [hplan]
      exact Plan.andThen_none hstop
    have hlength := hstands.length_eq
    generalize part.rows = rows at hstands hcontent hlength
    have hrows : (plan lease.job).rows = rows := congrArg Plan.rows hcontent
    have hle := hloaded.found
    rw [hrows] at hle
    simp only at hle
    rw [noContent_congr hlength]
    refine follows_bind (follows_throwIf fun hbad => ?_) ?_
    · have hlt := of_decide_eq_true hbad
      omega
    rintro m _ ⟨rfl, -⟩
    have hempty : state.chunks.isEmpty = rows.isEmpty := by
      rw [Bool.eq_iff_iff, List.isEmpty_iff_length_eq_zero, List.isEmpty_iff_length_eq_zero,
        hlength]
    rw [hempty]
    refine follows_bind (follows_throwIf fun hbad => ?_) ?_
    · have htotal := congrArg Plan.stop hcontent
      unfold planContent at htotal
      rw [if_pos hbad] at htotal
      exact Or.inr (Or.inr htotal)
    rintro m _ ⟨rfl, hgood⟩
    refine Follows.done ⟨?_, ?_, ?_, ?_⟩
    · have htotal := congrArg Plan.stop hcontent
      unfold planContent at htotal
      rw [if_neg (by rw [hgood]; exact Bool.false_ne_true)] at htotal
      exact htotal
    · rw [hrows]
      exact hstands.chunks
    · rw [hempty]
      cases hnone : rows.isEmpty with
      | true =>
        rw [hnone, Bool.true_and, Bool.not_eq_false'] at hgood
        exact hgood
      | false => simp [noContent, hnone]
    · rw [hrows, hstands.place, hfound]
      exact max_eq_right hle

/-- A call that the protocol allows wherever the run stands. -/
def WorkerCall.Free (plan : EmbeddingJob → Plan) (call : WorkerCall) : Prop :=
  ∀ m, call.allowed plan m

theorem follows_of_free {α : Type} {p : WorkerProg α} (h : p.Calls (WorkerCall.Free plan))
    (m : RunMode) : FollowsPlan plan (fun _ _ => True) m p := by
  induction p generalizing m with
  | done a => exact Follows.done trivial
  | fail thrown => exact Follows.fail trivial
  | call call next ih => exact Follows.call (h.1 m) fun answer _ => ih answer (h.2 answer) _

theorem free_liftThrown {α β : Type} {result : Except EmbedThrown α} {f : α → WorkerProg β}
    (h : ∀ a, (f a).Calls (WorkerCall.Free plan)) :
    (liftThrown result >>= f).Calls (WorkerCall.Free plan) := by
  cases result with
  | error thrown => trivial
  | ok a => exact h a

theorem free_throwIf {β : Type} {bad : Bool} {thrown : EmbedThrown} {p : WorkerProg β}
    (h : p.Calls (WorkerCall.Free plan)) :
    (throwIf bad thrown >>= fun _ => p).Calls (WorkerCall.Free plan) := by
  cases bad with
  | true => trivial
  | false => exact h

theorem free_ask {β : Type} (question : Outside) {f : question.Answer → WorkerProg β}
    (h : ∀ answer, (f answer).Calls (WorkerCall.Free plan)) :
    (ask question >>= f).Calls (WorkerCall.Free plan) := ⟨fun _ => trivial, h⟩

theorem free_callIndex {β : Type} {call : IndexCall} {f : call.Answer → WorkerProg β}
    (hcall : WorkerCall.Free plan (.onIndex call))
    (h : ∀ answer, (f answer).Calls (WorkerCall.Free plan)) :
    (callIndex call >>= f).Calls (WorkerCall.Free plan) := by
  refine ⟨hcall, fun (answer : Except EmbedThrown call.Answer) => ?_⟩
  cases answer with
  | error thrown => trivial
  | ok value => exact h value

theorem free_readAuthority (orgId : String) (generation : EmbeddingGeneration) :
    (readAuthority orgId generation).Calls (WorkerCall.Free plan) :=
  free_ask _ fun _ => free_liftThrown fun _ => free_throwIf <| free_liftThrown fun _ =>
    free_callIndex (fun _ => trivial) fun _ => trivial

theorem free_completeJob (orgId : String) {chunks : List ContextVectorChunk} {empty : Bool}
    (h : Embedded (plan lease.job) m chunks empty) :
    (completeJob orgId lease chunks empty).Calls (WorkerCall.Free plan) := by
  refine Prog.calls_bind (free_readAuthority orgId lease.generation) fun read => ?_
  refine free_ask _ fun beat => free_liftThrown fun lost => ?_
  refine Prog.calls_ite (fun _ => trivial) fun _ => ?_
  exact free_ask _ fun now => free_callIndex (fun _ => ⟨h.stop, h.rows, h.empty⟩) fun _ => trivial

theorem free_settleJob (thrown : EmbedThrown) :
    (settleJob lease thrown).Calls (WorkerCall.Free plan) := by
  unfold settleJob
  split
  · exact free_ask _ fun now => free_callIndex (fun _ => trivial) fun _ => trivial
  · exact free_ask _ fun now => free_ask _ fun jitter => free_liftThrown fun retryAt =>
      free_callIndex (fun _ => trivial) fun _ => trivial

theorem follows_workJob (orgId : String) (read : EmbeddingRead) (m : RunMode)
    (hplan : plan lease.job =
      planEvent platform provider lease.generation source lease.job.eventId) :
    FollowsPlan plan (fun _ _ => True) m
      (workJob platform provider source orgId read lease) := by
  have hworked : FollowsPlan plan (fun _ _ => True) m
      (if read.events.any (fun event => event.eventId = lease.job.eventId) &&
          isHead read.toContextSourceRead lease.job then do
        let embedded ← embedEvent platform provider source lease
        completeJob orgId lease embedded.1 embedded.2
      else pure .superseded) := by
    split
    · refine Follows.bind (follows_embedEvent m hplan) ?_ fun _ _ _ => trivial
      intro m' embedded hembedded
      exact follows_of_free (free_completeJob orgId hembedded) m'
    · exact Follows.done trivial
  exact hworked.tryCatch (fun _ _ _ => trivial)
    fun m' thrown _ => follows_of_free (free_settleJob thrown) m'

end Jobs

/-- What the job's event comes to. -/
def jobPlan (platform : EmbeddingPlatform) (provider : EmbeddingProvider)
    (source : EmbeddingSource) (generations : String → EmbeddingGeneration)
    (job : EmbeddingJob) : Plan :=
  planEvent platform provider (generations job.generation) source job.eventId

theorem follows_workJobs {platform : EmbeddingPlatform} {provider : EmbeddingProvider}
    {source : EmbeddingSource} {generations : String → EmbeddingGeneration}
    {generation : EmbeddingGeneration} (hgeneration : generations generation.id = generation)
    (orgId owner : String) (read : EmbeddingRead) {jobs : List EmbeddingJob}
    (hjobs : ∀ job ∈ jobs, job.generation = generation.id) (m : RunMode) :
    FollowsPlan (jobPlan platform provider source generations) (fun _ _ => True) m
      (workJobs platform provider source orgId owner generation read jobs) := by
  induction jobs generalizing m with
  | nil => exact Follows.done trivial
  | cons job rest ih =>
    unfold workJobs
    refine Follows.call trivial fun (aborted : Bool) _ => ?_
    cases aborted with
    | true => exact Follows.done trivial
    | false =>
      change FollowsPlan _ _ m (workJob platform provider source orgId read
        ⟨job, owner, generation⟩ >>= _)
      refine Follows.bind (follows_workJob orgId read _ ?_) ?_ fun _ _ _ => trivial
      · unfold jobPlan
        rw [hjobs job List.mem_cons_self, hgeneration]
      · intro m' outcome _
        refine Follows.bind (ih (fun other hother => hjobs other (List.mem_cons_of_mem _ hother))
          m') (fun _ _ _ => Follows.done trivial) fun _ _ _ => trivial

/-- Whatever a run of a worker is answered, it stages the chunks of the plans in order, each from
where the checkpoint ends that it has loaded, and publishes plans as a whole. -/
theorem follows_runGeneration {platform : EmbeddingPlatform} {provider : EmbeddingProvider}
    {source : EmbeddingSource} {generations : String → EmbeddingGeneration}
    {generation : EmbeddingGeneration} (hgeneration : generations generation.id = generation)
    (orgId owner : String) (previous : Option EmbeddingRead) (m : RunMode) :
    FollowsPlan (jobPlan platform provider source generations) (fun _ _ => True) m
      (runGeneration platform provider source orgId owner generation previous) := by
  have hclaim : ∀ (read : EmbeddingRead) (m : RunMode),
      FollowsPlan (jobPlan platform provider source generations) (fun _ _ => True) m (do
        let now ← ask .now
        let claimed : List EmbeddingJob ←
          callIndex (.claim orgId generation.id owner now 90000 1)
        workJobs platform provider source orgId owner generation read claimed) := by
    intro read m
    refine Follows.call trivial fun (now : Stamp) _ => ?_
    refine Follows.call trivial fun (answer : Except EmbedThrown (List EmbeddingJob)) hanswer => ?_
    cases answer with
    | error thrown => exact Follows.fail trivial
    | ok jobs => exact follows_workJobs hgeneration orgId owner read hanswer m
  unfold runGeneration
  cases previous with
  | some read => exact hclaim read m
  | none =>
    refine Follows.bind (follows_of_free (free_readAuthority orgId generation) m) ?_
      fun _ _ _ => trivial
    exact fun m' read _ => hclaim read m'

end Runs

end Regenic.Embedding
