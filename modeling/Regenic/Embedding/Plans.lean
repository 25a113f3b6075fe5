import Regenic.Embedding.IndexJobs
import Regenic.Embedding.Worker

/-!
The plan of an event is what a single run without a limit would stage. A run that finds a
beginning of the plan in the checkpoint stages the chunk of the plan that comes next, again and
again, until its batch is full or the plan ends. Here is what a run keeps to, and that it does so
in the texts that it cuts.
-/

namespace Regenic.Embedding

open Lib

/-! ## Chunks after chunks -/

theorem lastStop_append (first second : List ContextVectorChunk) :
    lastStop (first ++ second) = second.getLast?.elim (lastStop first) (·.stop) := by
  unfold lastStop
  rw [List.getLast?_append]
  cases second.getLast? <;> rfl

theorem Tiles.append {ordinal start : Nat} {first second : List ContextVectorChunk}
    (h : Tiles ordinal start first)
    (h' : Tiles (ordinal + first.length) (first.getLast?.elim start (·.stop)) second) :
    Tiles ordinal start (first ++ second) := by
  induction first generalizing ordinal start with
  | nil => exact h'
  | cons head rest ih =>
    obtain ⟨hordinal, hstart, hlt, hrest⟩ := h
    refine ⟨hordinal, hstart, hlt, ih hrest ?_⟩
    rw [List.length_cons, ← Nat.add_assoc, Nat.add_right_comm] at h'
    cases rest with
    | nil => exact h'
    | cons next rest =>
      rw [List.getLast?_cons_cons] at h'
      rw [List.getLast?_eq_some_getLast (by simp)] at h' ⊢
      exact h'

/-- The chunk at a place carries the place. -/
theorem Tiles.ordinal_eq {ordinal start : Nat} {chunks : List ContextVectorChunk}
    (h : Tiles ordinal start chunks) {i : Nat} {chunk : ContextVectorChunk}
    (hchunk : chunks[i]? = some chunk) : chunk.ordinal = ordinal + i := by
  induction chunks generalizing ordinal start i with
  | nil => cases hchunk
  | cons first rest ih =>
    obtain ⟨hordinal, _, _, hrest⟩ := h
    cases i with
    | zero =>
      cases hchunk
      exact hordinal
    | succ i =>
      rw [ih hrest hchunk]
      omega

theorem Tiles.of_stored {ordinal start : Nat} {chunks : List ContextVectorChunk}
    (h : Tiles ordinal start (chunks.map ContextVectorChunk.stored)) :
    Tiles ordinal start chunks := by
  induction chunks generalizing ordinal start with
  | nil => exact trivial
  | cons first rest ih =>
    obtain ⟨hordinal, hstart, hlt, hrest⟩ := h
    exact ⟨hordinal, hstart, hlt, ih hrest⟩

/-! ## Plans -/

/-- The chunks of an event, and the error that ends them. -/
structure Plan where
  rows : List ContextVectorChunk
  stop : Option EmbedThrown := none

namespace Plan

def andThen (plan : Plan) (next : List ContextVectorChunk → Plan) : Plan :=
  match plan.stop with
  | none => next plan.rows
  | some _ => plan

/-- One step for each element. -/
def each {α : Type} (step : List ContextVectorChunk → α → Plan) :
    List α → List ContextVectorChunk → Plan
  | [], rows => { rows }
  | a :: rest, rows => (step rows a).andThen (each step rest)

/-- Whatever comes after `plan`, `total` is what it comes to. -/
def Leads (plan total : Plan) : Prop :=
  plan.rows <+: total.rows ∧ (plan.stop ≠ none → plan = total)

theorem andThen_none {plan : Plan} {next : List ContextVectorChunk → Plan}
    (h : plan.stop = none) : plan.andThen next = next plan.rows := by
  unfold andThen
  rw [h]

theorem andThen_some {plan : Plan} {next : List ContextVectorChunk → Plan}
    (h : plan.stop ≠ none) : plan.andThen next = plan := by
  unfold andThen
  cases hstop : plan.stop with
  | none => exact absurd hstop h
  | some thrown => rfl

/-- The step adds chunks that follow the ones it starts from. -/
def Extends (step : List ContextVectorChunk → Plan) : Prop :=
  ∀ rows, ∃ more, (step rows).rows = rows ++ more ∧ Tiles rows.length (lastStop rows) more

theorem Extends.of_eq {step : List ContextVectorChunk → Plan} {rows : List ContextVectorChunk}
    (h : (step rows).rows = rows) :
    ∃ more, (step rows).rows = rows ++ more ∧ Tiles rows.length (lastStop rows) more :=
  ⟨[], by rw [h, List.append_nil], trivial⟩

theorem Extends.le {step : List ContextVectorChunk → Plan} (h : Extends step)
    (rows : List ContextVectorChunk) : rows <+: (step rows).rows := by
  obtain ⟨more, hmore, -⟩ := h rows
  exact ⟨more, hmore.symm⟩

theorem Extends.andThen {first next : List ContextVectorChunk → Plan} (hfirst : Extends first)
    (hnext : Extends next) : Extends fun rows => (first rows).andThen next := by
  intro rows
  obtain ⟨more, hmore, htiles⟩ := hfirst rows
  by_cases hstop : (first rows).stop = none
  · simp only [andThen_none hstop]
    obtain ⟨later, hlater, htiles'⟩ := hnext (first rows).rows
    rw [hmore, List.length_append, lastStop_append] at htiles'
    exact ⟨more ++ later, by rw [hlater, hmore, List.append_assoc], htiles.append htiles'⟩
  · simp only [andThen_some hstop]
    exact ⟨more, hmore, htiles⟩

theorem Extends.each {α : Type} {step : List ContextVectorChunk → α → Plan}
    (h : ∀ a, Extends fun rows => step rows a) (list : List α) : Extends (Plan.each step list) := by
  induction list with
  | nil => exact fun rows => Extends.of_eq rfl
  | cons a rest ih => exact (h a).andThen ih

theorem Leads.first {plan total : Plan} {next : List ContextVectorChunk → Plan}
    (h : (plan.andThen next).Leads total) (hnext : Extends next) : plan.Leads total := by
  by_cases hstop : plan.stop = none
  · rw [andThen_none hstop] at h
    exact ⟨(hnext.le _).trans h.1, fun hne => absurd hstop hne⟩
  · rw [andThen_some hstop] at h
    exact h

theorem Leads.next {plan total : Plan} {next : List ContextVectorChunk → Plan}
    (h : (plan.andThen next).Leads total) (hstop : plan.stop = none) :
    (next plan.rows).Leads total := by
  rw [andThen_none hstop] at h
  exact h

end Plan

section Planned

variable (platform : EmbeddingPlatform) (provider : EmbeddingProvider)

/-- Slices that follow each other from `start` on. -/
def placed : Nat → List CodeUnits → List PendingSlice
  | _, [] => []
  | start, slice :: rest => ⟨slice, start⟩ :: placed (start + slice.length) rest

def sliceChunks : Nat → Nat → List CodeUnits → List ContextVectorChunk
  | _, _, [] => []
  | ordinal, start, slice :: rest =>
    sliceChunk platform provider ordinal ⟨slice, start⟩ ::
      sliceChunks (ordinal + 1) (start + slice.length) rest

variable (generation : EmbeddingGeneration) (parts : List ContextSearchPart)

def planText (rows : List ContextVectorChunk) (value : CodeUnits) (origin : Option PartBinding) :
    Plan :=
  let text := placedText parts rows value origin
  let cut := sliceText provider generation.chunkTokens
    (generation.maxChunksPerEvent - rows.length) value
  { rows := rows ++ (sliceChunks platform provider 0 0 cut.1).map text.bind, stop := cut.2 }

def planVisual (attachment : ContextEmbeddingAttachment) (rows : List ContextVectorChunk)
    (entry : List ℚ × Nat) : Plan :=
  if generation.maxChunksPerEvent ≤ rows.length then { rows, stop := some tooLarge }
  else { rows := rows ++ [visualChunk platform attachment rows entry.2 entry.1] }

def planReadable (rows : List ContextVectorChunk) (text : Option CodeUnits)
    (origin : Option PartBinding) : Plan :=
  match readable text with
  | none => { rows }
  | some value =>
    if maxTextBytes < utf8Length value then { rows, stop := some tooLarge }
    else planText platform provider generation parts rows value origin

def planCount (rows : List ContextVectorChunk) : Plan :=
  { rows, stop := if generation.maxChunksPerEvent < rows.length then some tooLarge else none }

def planPictures (attachment : ContextEmbeddingAttachment) (vectors : List (List ℚ))
    (rows : List ContextVectorChunk) : Plan :=
  if provider.visualEnabled = some false && !vectors.isEmpty then
    { rows, stop := some (.embedding .invalidResponse false) }
  else (Plan.each (planVisual platform generation attachment) vectors.zipIdx rows).andThen
    (planCount generation)

def planAttachment (process : EmbeddingAttachmentInput → ProcessedEmbeddingAttachment)
    (rows : List ContextVectorChunk) (attachment : ContextEmbeddingAttachment) : Plan :=
  let processed := process (attachmentInput attachment)
  if !processed.usable provider then { rows, stop := some invalidResponse }
  else (planReadable platform provider generation parts rows processed.text
    (attachmentBinding attachment)).andThen
      (planPictures platform provider generation attachment processed.vectors)

def planAttachments (attachments : List ContextEmbeddingAttachment)
    (rows : List ContextVectorChunk) : Plan :=
  if attachments.isEmpty then { rows }
  else match provider.processAttachment with
    | none => { rows, stop := some (.embedding .unavailable true) }
    | some process =>
      Plan.each (planAttachment platform provider generation parts process) attachments rows

/-- A material without chunks is an error, but where there is nothing to embed. -/
def planContent (material : ContextEmbeddingMaterial) (rows : List ContextVectorChunk) : Plan where
  rows
  stop :=
    if rows.isEmpty && !noContent provider generation material rows then
      some (.embedding .invalidInput false)
    else none

def planMaterial (material : ContextEmbeddingMaterial) : Plan :=
  ((planReadable platform provider generation material.searchParts [] material.text none).andThen
    (planAttachments platform provider generation material.searchParts
      material.attachments)).andThen (planContent provider generation material)

variable (source : EmbeddingSource)

def planEvent (eventId : String) : Plan :=
  match source.material generation.extractorVersion eventId with
  | .error thrown => { rows := [], stop := some thrown }
  | .ok material =>
    if material.text.any fun text => maxTextBytes < utf8Length text then
      { rows := [], stop := some tooLarge }
    else planMaterial platform provider generation material

end Planned

/-! ## The chunks of a text -/

section Slices

variable {platform : EmbeddingPlatform} {provider : EmbeddingProvider}

theorem placed_append (start : Nat) (first second : List CodeUnits) :
    placed start (first ++ second) =
      placed start first ++ placed (start + first.flatten.length) second := by
  induction first generalizing start with
  | nil => rfl
  | cons slice rest ih =>
    simp only [List.cons_append, placed, ih, List.flatten_cons, List.length_append]
    rw [Nat.add_assoc]

@[simp] theorem placed_length (start : Nat) (slices : List CodeUnits) :
    (placed start slices).length = slices.length := by
  induction slices generalizing start with
  | nil => rfl
  | cons slice rest ih => simp [placed, ih]

theorem sliceChunks_append (ordinal start : Nat) (first second : List CodeUnits) :
    sliceChunks platform provider ordinal start (first ++ second) =
      sliceChunks platform provider ordinal start first ++
        sliceChunks platform provider (ordinal + first.length) (start + first.flatten.length)
          second := by
  induction first generalizing ordinal start with
  | nil => rfl
  | cons slice rest ih =>
    simp only [List.cons_append, sliceChunks, ih, List.flatten_cons, List.length_append,
      List.length_cons]
    rw [Nat.add_assoc start, Nat.add_assoc ordinal, Nat.add_comm 1]

@[simp] theorem sliceChunks_length (ordinal start : Nat) (slices : List CodeUnits) :
    (sliceChunks platform provider ordinal start slices).length = slices.length := by
  induction slices generalizing ordinal start with
  | nil => rfl
  | cons slice rest ih => simp [sliceChunks, ih]

theorem sliceChunks_take (ordinal start count : Nat) (slices : List CodeUnits) :
    (sliceChunks platform provider ordinal start slices).take count =
      sliceChunks platform provider ordinal start (slices.take count) := by
  induction slices generalizing ordinal start count with
  | nil => simp [sliceChunks]
  | cons slice rest ih =>
    cases count with
    | zero => rfl
    | succ count => simp [sliceChunks, ih]

/-- Where the chunks of slices lie. -/
theorem sliceChunks_within {ordinal start : Nat} {slices : List CodeUnits}
    {chunk : ContextVectorChunk} (h : chunk ∈ sliceChunks platform provider ordinal start slices) :
    ordinal ≤ chunk.ordinal ∧ start ≤ chunk.start ∧
      chunk.stop ≤ start + slices.flatten.length := by
  induction slices generalizing ordinal start with
  | nil => cases h
  | cons slice rest ih =>
    rw [List.flatten_cons, List.length_append]
    rcases List.mem_cons.mp h with rfl | h
    · simp only [sliceChunk]
      omega
    · have hrest := ih h
      omega

/-! ### Checkpoints of a text -/

/-- The same piece of the same text. -/
structure SamePiece (chunk other : ContextVectorChunk) : Prop where
  ordinal : chunk.ordinal = other.ordinal
  start : chunk.start = other.start
  stop : chunk.stop = other.stop
  textHash : chunk.textHash = other.textHash

theorem resumeAt_ok {text : CodeUnits} {ordinal start : Nat} {slices : List CodeUnits}
    {rest : CodeUnits} {chunks : List ContextVectorChunk}
    (htext : text.drop start = slices.flatten ++ rest) (hstart : start ≤ text.length)
    (hne : ∀ slice ∈ slices, slice ≠ [])
    (hsame : List.Forall₂ SamePiece chunks (sliceChunks platform provider ordinal start slices)) :
    resumeAt platform text ordinal start chunks = .ok (start + slices.flatten.length) := by
  induction slices generalizing ordinal start chunks with
  | nil =>
    cases hsame
    rfl
  | cons slice more ih =>
    cases hsame with
    | cons hpiece hsame =>
      have hslice := List.length_pos_iff.mpr (hne slice List.mem_cons_self)
      have hlength := congrArg List.length htext
      simp only [List.flatten_cons, List.length_append, List.length_drop] at hlength
      have hstop : _ = start + slice.length := hpiece.stop
      have hcut : sliceUnits text start (start + slice.length) = slice := by
        unfold sliceUnits
        rw [htext, Nat.add_sub_cancel_left, List.flatten_cons, List.append_assoc]
        exact List.take_left
      have hhash : _ = platform.sha256 slice := hpiece.textHash
      have hdrop : text.drop (start + slice.length) = more.flatten ++ rest := by
        rw [← List.drop_drop, htext, List.flatten_cons, List.append_assoc]
        exact List.drop_left
      have hordinal : _ = ordinal := hpiece.ordinal
      have hplace : _ = start := hpiece.start
      have hgood := ih hdrop (by omega) (fun s hs => hne s (List.mem_cons_of_mem _ hs)) hsame
      unfold resumeAt
      rw [hordinal, hplace, hstop, hhash, hcut]
      simp only [List.flatten_cons, List.length_append, ← Nat.add_assoc]
      rw [← hgood]
      have hin : start + slice.length ≤ text.length := by omega
      simp [hslice, hin, bind, Except.bind]

end Slices

/-! ## What a run keeps to -/

/-- How many chunks of the plan the run has found in the checkpoint, how many it has added, and
whether something that it asked for was refused. -/
structure RunMode where
  found : Nat := 0
  accepted : Nat := 0
  refused : Bool := false

namespace RunMode

def refuse (m : RunMode) : RunMode := { m with refused := true }

def reached (m : RunMode) : Except EmbedThrown Unit → RunMode
  | .ok () => m
  | .error _ => m.refuse

def asked (m : RunMode) : (aborted : Bool) → RunMode
  | true => m.refuse
  | false => m

def loaded (m : RunMode) : Except EmbedThrown (List ContextVectorChunk) → RunMode
  | .ok staged => { m with found := staged.length, accepted := 0 }
  | .error _ => m.refuse

def stagedChunk (m : RunMode) : Except EmbedThrown Bool → RunMode
  | .ok true => { m with accepted := m.accepted + 1 }
  | _ => m.refuse

def after (m : RunMode) : (call : WorkerCall) → call.Answer → RunMode
  | .outside .reach, answer => m.reached answer
  | .outside .aborted, answer => m.asked answer
  | .loadStagedChunks .., answer => m.loaded answer
  | .onIndex (.stageChunk ..), answer => m.stagedChunk answer
  | _, _ => m

end RunMode

section Protocols

variable (plan : EmbeddingJob → Plan)

/-- The chunk that comes next in the plan is staged, and the plan as a whole is published. -/
def WorkerCall.allowed (m : RunMode) : WorkerCall → Prop
  | .onIndex (.stageChunk job _ _ chunk) => (plan job).rows[m.found + m.accepted]? = some chunk
  | .onIndex (.complete job _ _ chunks empty) => (plan job).stop = none ∧
      chunks.map ContextVectorChunk.stored = (plan job).rows.map ContextVectorChunk.stored ∧
      empty = chunks.isEmpty
  | _ => True

def claimsOf (generation : String) : Except EmbedThrown (List EmbeddingJob) → Prop
  | .ok jobs => ∀ job ∈ jobs, job.generation = generation
  | .error _ => True

def beginningOf (rows : List ContextVectorChunk) :
    Except EmbedThrown (List ContextVectorChunk) → Prop
  | .ok staged => staged <+: rows.map ContextVectorChunk.stored
  | .error _ => True

/-- A checkpoint is a beginning of the plan, and a claim is of jobs of the generation. -/
def WorkerCall.answers : (call : WorkerCall) → call.Answer → Prop
  | .loadStagedChunks job _ _, answer => beginningOf (plan job).rows answer
  | .onIndex (.claim _ generation ..), answer => claimsOf generation answer
  | _, _ => True

def workProtocol : Protocol WorkerCall.Answer RunMode where
  allowed := WorkerCall.allowed plan
  answers _ := WorkerCall.answers plan
  after := RunMode.after

end Protocols

section Runs

variable {plan : EmbeddingJob → Plan}
variable {m : RunMode}

abbrev FollowsPlan {α : Type} (plan : EmbeddingJob → Plan)
    (post : RunMode → Except EmbedThrown α → Prop) (m : RunMode) (p : WorkerProg α) : Prop :=
  Follows (workProtocol plan) post m p

/-- What a run throws: it was refused, or its batch is full, or the plan ends so. -/
def Ended (total : Plan) (m : RunMode) (thrown : EmbedThrown) : Prop :=
  m.refused = true ∨ (thrown = .batchYield ∧ m.accepted = checkpointBatchChunks) ∨
    total.stop = some thrown

/-- A part of a run: what it ends well with, and how else it ends. -/
def Ends {α : Type} (total : Plan) (good : RunMode → α → Prop) (m : RunMode) :
    Except EmbedThrown α → Prop
  | .ok a => good m a
  | .error thrown => Ended total m thrown

theorem follows_bind {α β : Type} {total : Plan} {p : WorkerProg α} {f : α → WorkerProg β}
    {mid : RunMode → α → Prop} {good : RunMode → β → Prop}
    (hp : FollowsPlan plan (Ends total mid) m p)
    (hf : ∀ m' a, mid m' a → FollowsPlan plan (Ends total good) m' (f a)) :
    FollowsPlan plan (Ends total good) m (p >>= f) :=
  Follows.bind hp hf fun _ _ h => h

theorem follows_throwIf {total : Plan} {bad : Bool} {thrown : EmbedThrown}
    (h : bad = true → Ended total m thrown) :
    FollowsPlan plan (Ends total fun m' (_ : Unit) => m' = m ∧ bad = false) m
      (throwIf bad thrown) := by
  cases bad with
  | true => exact Follows.fail (h rfl)
  | false => exact Follows.done ⟨rfl, rfl⟩

theorem follows_liftThrown {α : Type} {total : Plan} {result : Except EmbedThrown α}
    (h : ∀ thrown, result = .error thrown → Ended total m thrown) :
    FollowsPlan plan (Ends total fun m' a => m' = m ∧ result = .ok a) m (liftThrown result) := by
  cases result with
  | error thrown => exact Follows.fail (h thrown rfl)
  | ok a => exact Follows.done ⟨rfl, rfl⟩

theorem follows_now {total : Plan} :
    FollowsPlan plan (Ends total fun m' (_ : Stamp) => m' = m) m (ask .now) :=
  Follows.call trivial fun _ _ => Follows.done rfl

theorem follows_reach {total : Plan} :
    FollowsPlan plan (Ends total fun m' (_ : Unit) => m' = m) m reach := by
  refine Follows.call trivial fun answer _ => ?_
  cases answer with
  | error thrown => exact Follows.fail (Or.inl rfl)
  | ok _ => exact Follows.done rfl

theorem follows_throwIfAborted {total : Plan} :
    FollowsPlan plan (Ends total fun m' (_ : Unit) => m' = m) m throwIfAborted := by
  refine Follows.call trivial fun (aborted : Bool) _ => ?_
  cases aborted with
  | true => exact Follows.fail (Or.inl rfl)
  | false => exact Follows.done rfl

/-- One chunk more of the plan. -/
theorem follows_saveChunk {lease : Lease} {chunk : ContextVectorChunk}
    (hroom : m.accepted < checkpointBatchChunks)
    (hordinal : chunk.ordinal < lease.generation.maxChunksPerEvent)
    (hrow : (plan lease.job).rows[m.found + m.accepted]? = some chunk) :
    FollowsPlan plan (Ends (plan lease.job) fun m' freshChunks =>
        m'.found = m.found ∧ m'.accepted = m.accepted + 1 ∧ freshChunks = m'.accepted ∧
          m'.accepted < checkpointBatchChunks) m (saveChunk lease m.accepted chunk) := by
  refine follows_bind (follows_throwIf ?_) ?_
  · intro hbad
    rw [decide_eq_true_eq] at hbad
    omega
  rintro m _ ⟨rfl, -⟩
  refine follows_bind follows_now ?_
  rintro m now rfl
  refine Follows.call hrow fun (answer : Except EmbedThrown Bool) _ => ?_
  cases answer with
  | error thrown => exact Follows.fail (Or.inl rfl)
  | ok staged =>
    cases staged with
    | false => exact Follows.fail (Or.inl rfl)
    | true =>
      change FollowsPlan plan _ { m with accepted := m.accepted + 1 }
        (throwIf (checkpointBatchChunks ≤ m.accepted + 1) .batchYield >>=
          fun _ => pure (m.accepted + 1))
      by_cases hfull : checkpointBatchChunks ≤ m.accepted + 1
      · refine follows_bind (follows_throwIf fun _ => Or.inr (Or.inl ⟨rfl, ?_⟩)) ?_
        · show m.accepted + 1 = checkpointBatchChunks
          omega
        · rintro _ _ ⟨-, hnot⟩
          exact absurd hfull (of_decide_eq_false hnot)
      · refine follows_bind (follows_throwIf fun hbad => absurd (of_decide_eq_true hbad) hfull) ?_
        rintro _ _ ⟨rfl, -⟩
        exact Follows.done ⟨rfl, rfl, rfl, Nat.lt_of_not_le hfull⟩

/-! ## Texts -/

/-- A run that has come to the end of `rows`. -/
structure Stands (m : RunMode) (rows : List ContextVectorChunk) (state : Progress) : Prop where
  chunks : state.chunks.map ContextVectorChunk.stored = rows.map ContextVectorChunk.stored
  fresh : state.freshChunks = m.accepted
  room : m.accepted < checkpointBatchChunks
  place : m.found + m.accepted = max m.found rows.length

section Texts

variable {platform : EmbeddingPlatform} {provider : EmbeddingProvider} {lease : Lease}
variable {done pending more slices : List CodeUnits} {state : Progress} {total : Plan}
  {cut : List CodeUnits × Option EmbedThrown}
  {next : List ContextVectorChunk → Plan} {chunk : ContextVectorChunk} {ordinal start : Nat}
  {text : PlacedText}

/-- A run that has come to the end of the slices `done` of a text. -/
structure TextStands (platform : EmbeddingPlatform) (provider : EmbeddingProvider)
    (text : PlacedText) (m : RunMode) (done : List CodeUnits) (state : Progress) : Prop where
  chunks : (state.chunks.map text.bind).map ContextVectorChunk.stored =
    ((sliceChunks platform provider 0 0 done).map text.bind).map ContextVectorChunk.stored
  fresh : state.freshChunks = m.accepted
  room : m.accepted < checkpointBatchChunks
  place : m.found + m.accepted = max m.found (text.ordinal + done.length)

theorem TextStands.length_eq (h : TextStands platform provider text m done state) :
    state.chunks.length = done.length := by
  have hlength := congrArg List.length h.chunks
  simpa using hlength

/-- The slices of the text are in the plan. -/
structure TextPlanned (platform : EmbeddingPlatform) (provider : EmbeddingProvider)
    (text : PlacedText) (lease : Lease) (total : Plan) (slices : List CodeUnits) : Prop where
  rows : ∃ before, before.length = text.ordinal ∧
    before ++ (sliceChunks platform provider 0 0 slices).map text.bind <+: total.rows
  fits : slices.length ≤ lease.generation.maxChunksPerEvent - text.ordinal

theorem TextPlanned.row {slice : CodeUnits}
    (h : TextPlanned platform provider text lease total (done ++ slice :: more)) :
    total.rows[text.ordinal + done.length]? =
      some (text.bind (sliceChunk platform provider done.length
        ⟨slice, done.flatten.length⟩)) := by
  obtain ⟨before, hordinal, after, hrows⟩ := h.rows
  rw [← hrows, sliceChunks_append, List.map_append, ← hordinal]
  simp [sliceChunks]

/-- What a text is saved by. -/
abbrev saveIn (lease : Lease) (text : PlacedText) (freshChunks : Nat)
    (chunk : ContextVectorChunk) : WorkerProg Nat := saveChunk lease freshChunks (text.bind chunk)

theorem follows_saveSlice {slice : CodeUnits}
    (hplanned : TextPlanned platform provider text lease (plan lease.job) (done ++ slice :: more))
    (hcaught : m.found ≤ text.ordinal + done.length)
    (h : TextStands platform provider text m done state) :
    FollowsPlan plan (Ends (plan lease.job) fun m' state' => m'.found = m.found ∧
        TextStands platform provider text m' (done ++ [slice]) state') m
      (saveSlice platform provider (saveIn lease text) state ⟨slice, done.flatten.length⟩) := by
  have hplace : m.found + m.accepted = text.ordinal + done.length :=
    h.place.trans (max_eq_right hcaught)
  have hfits := hplanned.fits
  rw [List.length_append, List.length_cons] at hfits
  have hordinal : (text.bind (sliceChunk platform provider done.length
      ⟨slice, done.flatten.length⟩)).ordinal < lease.generation.maxChunksPerEvent := by
    show text.ordinal + done.length < _
    omega
  unfold saveSlice
  rw [h.length_eq, h.fresh]
  refine follows_bind (follows_saveChunk h.room hordinal (hplace ▸ hplanned.row)) ?_
  rintro m' freshChunks ⟨hfound, haccepted, hfresh, hroom⟩
  refine Follows.done ⟨hfound, ?_, hfresh, hroom, ?_⟩
  · simp only [List.map_append, sliceChunks_append, h.chunks]
    simp [sliceChunks]
  · rw [hfound, haccepted, List.length_append, List.length_singleton]
    omega

theorem follows_saveSlices (hplanned : TextPlanned platform provider text lease (plan lease.job)
      (done ++ pending ++ more)) (hcaught : m.found ≤ text.ordinal + done.length)
    (h : TextStands platform provider text m done state) :
    FollowsPlan plan (Ends (plan lease.job) fun m' state' => m'.found = m.found ∧
        TextStands platform provider text m' (done ++ pending) state') m
      ((placed done.flatten.length pending).foldlM
        (saveSlice platform provider (saveIn lease text)) state) := by
  induction pending generalizing m done state with
  | nil =>
    rw [List.append_nil]
    exact Follows.done ⟨rfl, h⟩
  | cons slice rest ih =>
    have hsplit : done ++ (slice :: rest) ++ more = done ++ slice :: (rest ++ more) := by simp
    rw [placed, List.foldlM_cons]
    refine follows_bind (follows_saveSlice (hsplit ▸ hplanned) hcaught h) ?_
    rintro m' state' ⟨hfound, hstands⟩
    have hcaught' : m'.found ≤ text.ordinal + (done ++ [slice]).length := by
      rw [hfound, List.length_append, List.length_singleton]
      omega
    have hnext := ih (by simpa using hplanned) hcaught' hstands
    rw [hfound, List.append_assoc] at hnext
    simpa using hnext

theorem follows_flush (hplanned : TextPlanned platform provider text lease (plan lease.job)
      (done ++ pending ++ more)) (hcaught : m.found ≤ text.ordinal + done.length)
    (h : TextStands platform provider text m done state) :
    FollowsPlan plan (Ends (plan lease.job) fun m' state' => m'.found = m.found ∧
        TextStands platform provider text m' (done ++ pending) state') m
      (flush platform provider (saveIn lease text) state
        (placed done.flatten.length pending)) := by
  unfold flush
  split
  · next hempty =>
    have hnone : pending = [] := by
      cases pending with
      | nil => rfl
      | cons slice rest => cases hempty
    subst hnone
    rw [List.append_nil]
    exact Follows.done ⟨rfl, h⟩
  · refine follows_bind follows_throwIfAborted ?_
    rintro m _ rfl
    refine follows_bind follows_reach ?_
    rintro m _ rfl
    exact follows_saveSlices hplanned hcaught h

/-- A slice that is queued is saved with those before it, or waits with them. -/
theorem follows_queue {slice : CodeUnits}
    (hplanned : TextPlanned platform provider text lease (plan lease.job)
      (done ++ pending ++ slice :: more)) (hcaught : m.found ≤ text.ordinal + done.length)
    (h : TextStands platform provider text m done state) :
    FollowsPlan plan (Ends (plan lease.job) fun m' queued => m'.found = m.found ∧
        ∃ done' pending', done' ++ pending' = done ++ pending ++ [slice] ∧
          m'.found ≤ text.ordinal + done'.length ∧
          TextStands platform provider text m' done' queued.1 ∧
          queued.2 = placed done'.flatten.length pending') m
      (queue platform provider (saveIn lease text) state (placed done.flatten.length pending)
        ⟨slice, (done ++ pending).flatten.length⟩) := by
  have hpending : placed done.flatten.length pending ++
      [⟨slice, (done ++ pending).flatten.length⟩] =
        placed done.flatten.length (pending ++ [slice]) := by
    rw [placed_append, List.flatten_append, List.length_append]
    rfl
  unfold queue
  rw [hpending]
  split
  · have hwaiting : TextPlanned platform provider text lease (plan lease.job)
        (done ++ (pending ++ [slice]) ++ more) := by simpa using hplanned
    refine follows_bind (follows_flush hwaiting hcaught h) ?_
    rintro m' state' ⟨hfound, hstands⟩
    refine Follows.done ⟨hfound, done ++ (pending ++ [slice]), [], by simp, ?_, hstands, rfl⟩
    rw [hfound, List.length_append]
    omega
  · exact Follows.done ⟨rfl, done, pending ++ [slice], by simp, hcaught, h, rfl⟩

/-- At the end of a text the slices that wait are saved. -/
theorem follows_chunkRest_nil {chunkTokens start : Nat} (budget : Nat)
    (hplanned : TextPlanned platform provider text lease (plan lease.job)
      (done ++ pending ++ (textSlices provider chunkTokens budget []).1))
    (hcaught : m.found ≤ text.ordinal + done.length)
    (h : TextStands platform provider text m done state) :
    FollowsPlan plan (Ends (plan lease.job) fun m' state' =>
        (textSlices provider chunkTokens budget []).2 = none ∧ m'.found = m.found ∧
          TextStands platform provider text m'
            (done ++ pending ++ (textSlices provider chunkTokens budget []).1) state') m
      (chunkRest platform provider chunkTokens (saveIn lease text) budget [] start state
        (placed done.flatten.length pending)) := by
  rw [textSlices_nil] at hplanned ⊢
  unfold chunkRest
  rw [if_pos (show List.isEmpty ([] : CodeUnits) = true from rfl)]
  exact (follows_flush hplanned hcaught h).mono fun m' r hr => by
    cases r with
    | error thrown => exact hr
    | ok state' => exact ⟨rfl, hr.1, (List.append_nil _).symm ▸ hr.2⟩

/-- The slices of the rest of a text, with those that wait. -/
theorem follows_chunkRest {chunkTokens budget : Nat} {rest : CodeUnits}
    (hplanned : TextPlanned platform provider text lease (plan lease.job)
      (done ++ pending ++ (textSlices provider chunkTokens budget rest).1))
    (hstop : ∀ thrown, (textSlices provider chunkTokens budget rest).2 = some thrown →
      (plan lease.job).stop = some thrown) (hcaught : m.found ≤ text.ordinal + done.length)
    (h : TextStands platform provider text m done state) :
    FollowsPlan plan (Ends (plan lease.job) fun m' state' =>
        (textSlices provider chunkTokens budget rest).2 = none ∧ m'.found = m.found ∧
          TextStands platform provider text m'
            (done ++ pending ++ (textSlices provider chunkTokens budget rest).1) state') m
      (chunkRest platform provider chunkTokens (saveIn lease text) budget rest
        (done ++ pending).flatten.length state (placed done.flatten.length pending)) := by
  induction budget generalizing m rest done pending state with
  | zero =>
    by_cases hempty : rest = []
    · subst hempty
      exact follows_chunkRest_nil 0 hplanned hcaught h
    · have hslices : textSlices provider chunkTokens 0 rest = ([], some tooLarge) := by
        simp [textSlices, hempty]
      unfold chunkRest
      rw [if_neg (by simpa using hempty)]
      refine follows_bind follows_throwIfAborted ?_
      rintro m _ rfl
      exact Follows.fail (Or.inr (Or.inr (hstop tooLarge (by rw [hslices]))))
  | succ budget ih =>
    by_cases hempty : rest = []
    · subst hempty
      exact follows_chunkRest_nil (budget + 1) hplanned hcaught h
    · unfold chunkRest
      rw [if_neg (by simpa using hempty)]
      refine follows_bind follows_throwIfAborted ?_
      rintro m _ rfl
      refine follows_bind follows_reach ?_
      rintro m _ rfl
      rw [textSlices_succ budget hempty] at hplanned hstop ⊢
      refine follows_bind (follows_liftThrown fun thrown hthrown => ?_) ?_
      · rw [hthrown] at hstop
        exact Or.inr (Or.inr (hstop thrown rfl))
      rintro m cut ⟨rfl, hcut⟩
      rw [hcut] at hplanned hstop ⊢
      simp only at hplanned hstop ⊢
      refine follows_bind (follows_queue hplanned hcaught h) ?_
      rintro m' ⟨state', _⟩ ⟨hfound, done', pending', hsame, hcaught', hstands, rfl⟩
      have hall : done' ++ pending' ++ (textSlices provider chunkTokens budget cut.rest).1 =
          done ++ pending ++
            cut.slice :: (textSlices provider chunkTokens budget cut.rest).1 := by
        rw [hsame]
        simp
      have hstart : (done ++ pending).flatten.length + cut.slice.length =
          (done' ++ pending').flatten.length := by
        rw [hsame]
        simp
        omega
      have hnext := ih (hall ▸ hplanned) hstop hcaught' hstands
      rw [hall, hfound, ← hstart] at hnext
      exact hnext

theorem take_of_flatten_drop {count : Nat} (hslices : ∀ slice ∈ slices, slice ≠ [])
    (hnone : (slices.drop count).flatten = []) : slices.take count = slices := by
  have hdrop : slices.drop count = [] :=
    List.eq_nil_iff_forall_not_mem.mpr fun slice hmem =>
      hslices slice (List.mem_of_mem_drop hmem) (List.flatten_eq_nil_iff.mp hnone slice hmem)
  conv_rhs => rw [← List.take_append_drop count slices, hdrop, List.append_nil]

/-- A text of which nothing is found is cut and saved from its start. -/
theorem follows_freshText {chunkTokens budget : Nat}
    (hcut : sliceText provider chunkTokens budget text.value = cut)
    (hplanned : TextPlanned platform provider text lease (plan lease.job) cut.1)
    (hstop : ∀ thrown, cut.2 = some thrown → (plan lease.job).stop = some thrown)
    (hcaught : m.found ≤ text.ordinal)
    (h : TextStands platform provider text m [] { freshChunks := m.accepted }) :
    FollowsPlan plan (Ends (plan lease.job) fun m' state' =>
        cut.2 = none ∧ m'.found = m.found ∧
          TextStands platform provider text m' cut.1 state') m
      (do
        reach
        let wholeTokens := provider.countTokens text.value
        throwIf (wholeTokens < 1) invalidResponse
        if wholeTokens ≤ chunkTokens then do
          throwIf (budget < 1) tooLarge
          let queued ← queue platform provider (saveIn lease text) { freshChunks := m.accepted } []
            ⟨text.value, 0⟩
          flush platform provider (saveIn lease text) queued.1 queued.2
        else
          chunkRest platform provider chunkTokens (saveIn lease text) budget text.value 0
            { freshChunks := m.accepted } []) := by
  refine follows_bind follows_reach ?_
  rintro m _ rfl
  unfold sliceText at hcut
  simp only at hcut
  refine follows_bind (follows_throwIf fun hbad => ?_) ?_
  · rw [if_pos (of_decide_eq_true hbad)] at hcut
    rw [← hcut] at hstop
    exact Or.inr (Or.inr (hstop _ rfl))
  rintro m _ ⟨rfl, hcounted⟩
  rw [if_neg (of_decide_eq_false hcounted)] at hcut
  split
  · next hfit =>
    rw [if_pos hfit] at hcut
    refine follows_bind (follows_throwIf fun hbad => ?_) ?_
    · rw [if_pos (of_decide_eq_true hbad)] at hcut
      rw [← hcut] at hstop
      exact Or.inr (Or.inr (hstop _ rfl))
    rintro m _ ⟨rfl, hroom⟩
    rw [if_neg (of_decide_eq_false hroom)] at hcut
    subst hcut
    have hone : TextPlanned platform provider text lease (plan lease.job)
        ([] ++ [] ++ text.value :: []) := hplanned
    refine follows_bind (follows_queue hone hcaught h) ?_
    rintro m' ⟨state', _⟩ ⟨hsame, done', pending', hall, hcaught', hstands, rfl⟩
    replace hall : done' ++ pending' = [text.value] := hall
    have hlast : TextPlanned platform provider text lease (plan lease.job)
        (done' ++ pending' ++ []) := by simpa [hall] using hplanned
    refine (follows_flush hlast hcaught' hstands).mono fun m'' r hr => ?_
    cases r with
    | error thrown => exact hr
    | ok state'' => exact ⟨rfl, hr.1.trans hsame, hall ▸ hr.2⟩
  · next hlong =>
    rw [if_neg hlong] at hcut
    subst hcut
    have hall : TextPlanned platform provider text lease (plan lease.job)
        ([] ++ [] ++ (textSlices provider chunkTokens budget text.value).1) := hplanned
    exact follows_chunkRest hall hstop hcaught h

/-- What is found of a text in a checkpoint: its first `count` slices, and all that the checkpoint
holds, unless the checkpoint goes on after the text. -/
structure TextFound (platform : EmbeddingPlatform) (provider : EmbeddingProvider)
    (text : PlacedText) (m : RunMode) (cut : List CodeUnits × Option EmbedThrown) (count : Nat)
    (chunks : List ContextVectorChunk) : Prop where
  le : count ≤ cut.1.length
  pieces : List.Forall₂ SamePiece chunks (sliceChunks platform provider 0 0 (cut.1.take count))
  all : m.found ≤ text.ordinal + count ∨ (count = cut.1.length ∧ cut.2 = none)

/-- The chunks of a text, with those of the checkpoint, are the ones of the plan. -/
theorem follows_chunkEmbeddingText {chunkTokens budget count : Nat} {m : RunMode}
    {chunks : List ContextVectorChunk} (hne : text.value ≠ [])
    (hcut : sliceText provider chunkTokens budget text.value = cut)
    (hplanned : TextPlanned platform provider text lease (plan lease.job) cut.1)
    (hstop : ∀ thrown, cut.2 = some thrown → (plan lease.job).stop = some thrown)
    (hfound : TextFound platform provider text m cut count chunks)
    (h : TextStands platform provider text m (cut.1.take count)
      { chunks, freshChunks := m.accepted }) :
    FollowsPlan plan (Ends (plan lease.job) fun m' state' =>
        cut.2 = none ∧ m'.found = m.found ∧
          TextStands platform provider text m' cut.1 state') m
      (chunkEmbeddingText platform provider chunkTokens (saveIn lease text) budget text.value
        chunks m.accepted) := by
  obtain ⟨hfits, hlength, rest, hflatten, -, hrest⟩ :=
    @sliceText_fits provider chunkTokens budget text.value hne
  have hwhole := @sliceText_whole provider chunkTokens budget text.value hne
  rw [hcut] at hfits hlength hflatten hrest hwhole
  have hslices : ∀ slice ∈ cut.1, slice ≠ [] := fun slice hmem => (hfits slice hmem).1
  have htext : text.value.drop 0 =
      (cut.1.take count).flatten ++ ((cut.1.drop count).flatten ++ rest) := by
    rw [List.drop_zero, ← List.append_assoc, ← List.flatten_append, List.take_append_drop, hflatten]
  have hchunks : chunks.length = count := by
    have heq := h.length_eq
    rw [List.length_take, Nat.min_eq_left hfound.le] at heq
    exact heq
  have hresume := resumeAt_ok htext (Nat.zero_le _)
    (fun slice hmem => hslices slice (List.mem_of_mem_take hmem)) hfound.pieces
  rw [Nat.zero_add] at hresume
  unfold chunkEmbeddingText
  rw [hresume]
  refine follows_bind (follows_liftThrown fun thrown hthrown => by cases hthrown) ?_
  rintro m start ⟨rfl, hstart⟩
  obtain rfl := Except.ok.inj hstart
  refine follows_bind (follows_throwIf fun hbad => ?_) ?_
  · have := of_decide_eq_true hbad
    have := hfound.le
    omega
  rintro m _ ⟨rfl, -⟩
  have hvalue := congrArg List.length htext
  rw [List.drop_zero, List.length_append] at hvalue
  split
  · next hend =>
    have hleft : (cut.1.drop count).flatten ++ rest = [] :=
      List.eq_nil_of_length_eq_zero (by omega)
    obtain ⟨hnone, rfl⟩ := List.append_eq_nil_iff.mp hleft
    have hcount : cut.1.take count = cut.1 := take_of_flatten_drop hslices hnone
    rw [List.append_nil] at hflatten
    exact Follows.done ⟨hwhole hflatten, rfl, hcount ▸ h⟩
  · next hgoes =>
    have hcaught : m.found ≤ text.ordinal + count := by
      rcases hfound.all with hcaught | ⟨hall, hnone⟩
      · exact hcaught
      · have hdrop : cut.1.drop count = [] := List.drop_eq_nil_of_le hall.ge
        rw [hdrop, hrest hnone] at hvalue
        exact absurd hvalue.symm (by simpa using hgoes)
    split
    · next hempty =>
      have hnil : chunks = [] := List.isEmpty_iff.mp hempty
      subst hnil
      obtain rfl : 0 = count := hchunks
      rw [List.take_zero] at h
      exact follows_freshText hcut hplanned hstop hcaught h
    · next hsome =>
      have hpos : count ≠ 0 := by
        intro hzero
        rw [hzero] at hchunks
        exact hsome (List.isEmpty_iff.mpr (List.eq_nil_of_length_eq_zero hchunks))
      have hrestSlices : cut = textSlices provider chunkTokens budget text.value :=
        hcut.symm.trans (sliceText_begun hpos (hcut ▸ hfound.le) (hcut ▸ hgoes))
      have hdrop := textSlices_drop count (hrestSlices ▸ hfound.le)
      simp only [← hrestSlices] at hdrop
      have hsplit : cut.1.take count ++ [] ++ cut.1.drop count = cut.1 := by simp
      rw [hchunks]
      have hleft : TextPlanned platform provider text lease (plan lease.job)
          (cut.1.take count ++ [] ++ (textSlices provider chunkTokens (budget - count)
            (text.value.drop (cut.1.take count).flatten.length)).1) := by
        rw [hdrop, hsplit]
        exact hplanned
      have hdone : m.found ≤ text.ordinal + (cut.1.take count).length := by
        rw [List.length_take, Nat.min_eq_left hfound.le]
        exact hcaught
      have hnext := follows_chunkRest hleft (by rw [hdrop]; exact hstop) hdone h
      rw [hdrop, hsplit, List.append_nil] at hnext
      exact hnext

/-! ### Checkpoints of a material -/

theorem lastStop_congr {chunks others : List ContextVectorChunk}
    (h : chunks.map ContextVectorChunk.stored = others.map ContextVectorChunk.stored) :
    lastStop chunks = lastStop others := by
  have hlast := congrArg List.getLast? h
  rw [List.getLast?_map, List.getLast?_map] at hlast
  unfold lastStop
  cases hchunks : chunks.getLast? with
  | none =>
    rw [hchunks] at hlast
    rw [Option.map_eq_none_iff.mp hlast.symm]
  | some chunk =>
    rw [hchunks] at hlast
    obtain ⟨other, hother, hsame⟩ := Option.map_eq_some_iff.mp hlast.symm
    rw [hother]
    exact (congrArg ContextVectorChunk.stop hsame).symm

theorem Tiles.stop_le_start {first second : List ContextVectorChunk}
    (h : Tiles ordinal start (first ++ second)) :
    ∀ chunk ∈ second, first.getLast?.elim start (·.stop) ≤ chunk.start := by
  induction first generalizing ordinal start with
  | nil =>
    intro chunk hmem
    induction second generalizing ordinal start with
    | nil => cases hmem
    | cons head rest ih =>
      obtain ⟨-, hstart, hlt, hrest⟩ := h
      rcases List.mem_cons.mp hmem with rfl | hmem
      · exact hstart.ge
      · have hle := ih hrest hmem
        simp only [List.getLast?_nil, Option.elim_none] at hle ⊢
        omega
  | cons head rest ih =>
    obtain ⟨-, -, -, hrest⟩ := h
    intro chunk hmem
    have hle := ih hrest chunk hmem
    cases rest with
    | nil => exact hle
    | cons next rest =>
      rw [List.getLast?_cons_cons]
      rw [List.getLast?_eq_some_getLast (by simp)] at hle ⊢
      exact hle

theorem sliceChunks_getLast (hne : slices ≠ []) (ordinal start : Nat) :
    ((sliceChunks platform provider ordinal start slices).map text.bind).getLast?.map (·.stop) =
      some (text.start + (start + slices.flatten.length)) := by
  induction slices generalizing ordinal start with
  | nil => exact absurd rfl hne
  | cons slice rest ih =>
    cases rest with
    | nil => simp [sliceChunks, sliceChunk, PlacedText.bind]
    | cons next rest =>
      have hlast := ih (by simp) (ordinal + 1) (start + slice.length)
      rw [sliceChunks, List.map_cons]
      rw [sliceChunks, List.map_cons] at hlast ⊢
      rw [List.getLast?_cons_cons, hlast]
      simp only [List.flatten_cons, List.length_append, Nat.add_assoc]

theorem sliceChunks_ordinal {i : Nat}
    (h : i < (sliceChunks platform provider ordinal start slices).length) :
    (sliceChunks platform provider ordinal start slices)[i].ordinal = ordinal + i := by
  induction slices generalizing ordinal start i with
  | nil => cases h
  | cons slice rest ih =>
    cases i with
    | zero => rfl
    | succ i =>
      simp only [sliceChunks, List.getElem_cons_succ]
      rw [ih]
      omega

/-- The chunk of a text as it comes back out of a checkpoint. -/
def PlacedText.resumed (text : PlacedText) (chunk : ContextVectorChunk) : ContextVectorChunk :=
  { chunk.stored with origin := (text.bind chunk).origin }

theorem bind_resumed (chunk : ContextVectorChunk) :
    (text.bind (text.resumed chunk)).stored = (text.bind chunk).stored := by
  have hbinding : bindingIn text.parts (text.resumed chunk) = bindingIn text.parts chunk := rfl
  have horigin : (text.bind (text.resumed chunk)).origin = (text.bind chunk).origin := by
    unfold PlacedText.bind
    simp only
    rw [hbinding]
    cases hbound : text.origin <|> bindingIn text.parts chunk with
    | none => simp [PlacedText.resumed, PlacedText.bind, hbound]
    | some binding => rfl
  have hrest : text.bind (text.resumed chunk) =
      { (text.bind chunk).stored with origin := (text.bind (text.resumed chunk)).origin } := rfl
  rw [hrest, horigin]
  exact stored_stored (text.bind chunk)

theorem holds_iff : text.holds chunk = true ↔
    text.start ≤ chunk.start ∧ chunk.stop ≤ text.start + text.value.length := by
  unfold PlacedText.holds
  rw [Bool.and_eq_true, decide_eq_true_eq, decide_eq_true_eq]

/-- The chunks of some slices as they come back out of a checkpoint. -/
theorem mapIdx_bound (slices : List CodeUnits) :
    (((sliceChunks platform provider 0 0 slices).map text.bind).map
      ContextVectorChunk.stored).mapIdx (fun index chunk => { chunk with
        ordinal := index, start := chunk.start - text.start, stop := chunk.stop - text.start }) =
      (sliceChunks platform provider 0 0 slices).map text.resumed := by
  refine List.ext_getElem (by simp) fun i hi hi' => ?_
  have hlt : i < (sliceChunks platform provider 0 0 slices).length := by simpa using hi'
  have hordinal : i = ((sliceChunks platform provider 0 0 slices)[i]).ordinal := by
    rw [sliceChunks_ordinal, Nat.zero_add]
  simp only [List.getElem_mapIdx, List.getElem_map]
  generalize (sliceChunks platform provider 0 0 slices)[i] = chunk at hordinal ⊢
  unfold PlacedText.resumed ContextVectorChunk.stored PlacedText.bind
  simp [hordinal]

/-- What a plan holds after the whole of a text lies behind it. -/
theorem stop_of_afterText {before after : List ContextVectorChunk} (hne : slices ≠ [])
    (hflatten : slices.flatten = text.value)
    (htiles : Tiles 0 0
      (before ++ (sliceChunks platform provider 0 0 slices).map text.bind ++ after)) :
    ∀ chunk ∈ after, text.start + text.value.length < chunk.stop := by
  intro chunk hmem
  have hle := htiles.stop_le_start chunk hmem
  obtain ⟨last, hend, hstop⟩ := Option.map_eq_some_iff.mp
    (@sliceChunks_getLast platform provider slices text hne 0 0)
  have hlt := htiles.start_lt_stop chunk (List.mem_append_right _ hmem)
  change lastStop _ ≤ _ at hle
  rw [lastStop_append, hend, Option.elim_some, hstop, Nat.zero_add, hflatten] at hle
  omega

/-- What a checkpoint that is a beginning of the plan holds of a text. -/
theorem staged_text {before after : List ContextVectorChunk} {found : Nat}
    (hbefore : before.length = text.ordinal) (hwithin : slices.flatten.length ≤ text.value.length)
    (hafter : ∀ chunk ∈ after, text.start + text.value.length < chunk.stop) :
    text.staged (((before ++ (sliceChunks platform provider 0 0 slices).map text.bind ++ after).take
        found).map ContextVectorChunk.stored) =
      (sliceChunks platform provider 0 0 (slices.take (found - text.ordinal))).map
        text.resumed := by
  have hin : ∀ chunk ∈ (sliceChunks platform provider 0 0 slices).map text.bind,
      text.holds chunk = true := by
    intro chunk hmem
    obtain ⟨piece, hpiece, rfl⟩ := List.mem_map.mp hmem
    have hplace := sliceChunks_within hpiece
    rw [holds_iff]
    simp only [PlacedText.bind]
    omega
  have hout : ∀ chunk ∈ after, ¬text.holds chunk = true := by
    intro chunk hmem
    have hstop := hafter chunk hmem
    rw [holds_iff]
    omega
  have hheld : text.holds ∘ ContextVectorChunk.stored = text.holds := rfl
  unfold PlacedText.staged
  rw [← List.map_drop, List.drop_take, List.append_assoc, ← hbefore, List.drop_left,
    List.filter_map, hheld, List.take_append, List.filter_append,
    List.filter_eq_self.mpr fun chunk hmem => hin chunk (List.mem_of_mem_take hmem),
    List.filter_eq_nil_iff.mpr fun chunk hmem => hout chunk (List.mem_of_mem_take hmem),
    List.append_nil, ← List.map_take, sliceChunks_take, mapIdx_bound]

end Texts

end Runs

end Regenic.Embedding
