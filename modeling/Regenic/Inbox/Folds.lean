import Regenic.Inbox.Surface

/-!
When a fold of the user outlives an ingest. The ingest never writes over a fold that it has
read; it writes over one that came after its read. So a fold is safe wherever the ingest has
nothing left to write on what it has read of the thread.
-/

namespace Regenic.Inbox

open Lib Ingest

variable (key : PrefKey)

/-- The thread is hidden, with reason human. -/
def Folded (s : SurfaceStore) : Prop :=
  ∃ pref ∈ s.prefs.get? key, pref.hidden = true ∧ pref.hiddenReason = some .human

instance (s : SurfaceStore) : Decidable (Folded key s) :=
  inferInstanceAs (Decidable (∃ pref ∈ s.prefs.get? key, _))

/-- What the user says of the thread in this step. -/
def userFold (_ : SurfaceRun) : SurfaceStep → Option Bool
  | .user write => if write.toPrefKey = key then write.hidden else none
  | _ => none

/-- Whether the last that the user said of the thread is a fold. -/
def lastFold (start : SurfaceRun) (events : List SurfaceStep) : Bool :=
  latest SurfaceRun.step (userFold key) start (decide (Folded key start.store)) events

/-- The thread is folded by the user whenever that was the user's last word. -/
structure FoldStands (start : SurfaceRun) (events : List SurfaceStep) : Prop where
  stands : lastFold key start events = true → Folded key (run SurfaceRun.step start events).store

/-! ## The condition -/

def SurfaceCall.WritesPref : SurfaceCall → Prop
  | .putConversationPref input => input.toPrefKey = key
  | .commitSyncPage _ prefs => ∃ input ∈ prefs, input.toPrefKey = key
  | _ => False

def SurfaceCall.ReadsPref : SurfaceCall → Prop
  | .getConversationPref read => read = key
  | _ => False

/-- The program can come to write the pref before it reads it again. -/
inductive MayWrite {α : Type} : SurfaceProg α → Prop where
  | now {c : SurfaceCall} {next : c.Answer → SurfaceProg α} (h : c.WritesPref key) :
      MayWrite (.call c next)
  | later {c : SurfaceCall} {next : c.Answer → SurfaceProg α} (h : ¬ c.ReadsPref key)
      (r : c.Answer) (hnext : MayWrite (next r)) : MayWrite (.call c next)

/-- The user folds the thread at a moment when the ingest writes nothing on what it has read
of it. -/
def FoldsInTime (run : SurfaceRun) : SurfaceStep → Prop
  | .user write => write.toPrefKey = key → write.hidden = some true → ¬ MayWrite key run.prog
  | _ => True

/-! ## What the ingest keeps to -/

def isHumanFold (pref : Option ConversationPref) : Bool :=
  effectiveHiddenReason (prefFold pref) = some .human

/-- The mode tells whether the pref was last read as one that may be written. -/
def surfaceProtocol : Protocol SurfaceCall.Answer Bool where
  allowed mayWrite c := c.WritesPref key → mayWrite = true
  answers _ _ _ := True
  after mayWrite
    | .getConversationPref read, pref => if read = key then !isHumanFold pref else mayWrite
    | _, _ => mayWrite

variable {key}

theorem after_of_not_reads {mayWrite : Bool} {c : SurfaceCall} (h : ¬ c.ReadsPref key)
    (r : c.Answer) : (surfaceProtocol key).after mayWrite c r = mayWrite := by
  cases c with
  | getConversationPref read => exact if_neg h
  | _ => rfl

/-- What was read as a human fold is not written. -/
theorem not_mayWrite_of_follows {α : Type} {post : Bool → Except SurfaceFailure α → Prop}
    {p : SurfaceProg α} (hp : Follows (surfaceProtocol key) post false p) : ¬ MayWrite key p := by
  intro hwrite
  induction hwrite with
  | now h =>
    cases hp with
    | call hc _ => exact absurd (hc h) Bool.false_ne_true
  | later h r _ ih =>
    cases hp with
    | call _ hnext =>
      have hrest := hnext r trivial
      rw [after_of_not_reads h] at hrest
      exact ih hrest

/-- Calls that have nothing to do with the pref. -/
def SurfaceCall.Neutral (key : PrefKey) (c : SurfaceCall) : Prop :=
  ¬ c.WritesPref key ∧ ¬ c.ReadsPref key

theorem follows_of_neutral {α : Type} {mayWrite : Bool} {p : SurfaceProg α}
    (hp : p.Calls (SurfaceCall.Neutral key)) :
    Follows (surfaceProtocol key) (fun m _ => m = mayWrite) mayWrite p := by
  induction p with
  | done a => exact Follows.done rfl
  | fail e => exact Follows.fail rfl
  | call c next ih =>
    obtain ⟨⟨hwrites, hreads⟩, hnext⟩ := hp
    apply Follows.call (fun h => absurd h hwrites)
    intro r _
    rw [after_of_not_reads hreads]
    exact ih r (hnext r)

theorem neutral_readEvents (orgId : String) (known : KnownEvents) (ids : List String) :
    (readEvents orgId known ids).Calls (SurfaceCall.Neutral key) := by
  have hevent : ∀ id, (readEvent orgId known id).Calls (SurfaceCall.Neutral key) := by
    intro id
    unfold readEvent
    split
    · trivial
    · exact Prog.calls_perform ⟨not_false, not_false⟩
  have hdisposition : ∀ id, (readDisposition known id).Calls (SurfaceCall.Neutral key) := by
    intro id
    unfold readDisposition
    split
    · trivial
    · exact Prog.calls_perform ⟨not_false, not_false⟩
  induction ids with
  | nil => trivial
  | cons id rest ih =>
    apply Prog.calls_bind (hevent id)
    intro event
    cases event with
    | none => exact ih
    | some event =>
      apply Prog.calls_bind (hdisposition id)
      intro disposition
      apply Prog.calls_bind ih
      intro more
      trivial

theorem neutral_readOnDesk (orgId threadId : String) (needsOnDesk : Bool) :
    (readOnDesk orgId threadId needsOnDesk).Calls (SurfaceCall.Neutral key) := by
  unfold readOnDesk
  split
  · exact ⟨⟨not_false, not_false⟩, fun _ => trivial⟩
  · trivial

/-- Of what the threads were read as, the mode tells the truth. -/
structure ReadThreads (key : PrefKey) (orgId : String) (ids : List String) (before after : Bool)
    (threads : List SurfaceThread) : Prop where
  other : (∀ id ∈ ids, (⟨orgId, id⟩ : PrefKey) ≠ key) → after = before
  fold : ∀ thread ∈ threads, (⟨orgId, thread.threadId⟩ : PrefKey) = key →
    isHumanFold thread.pref = true ∨ after = true

theorem follows_readThreads (orgId : String) (needsOnDesk : Bool) {ids : List String}
    (hnodup : ids.Nodup) (mayWrite : Bool) :
    Follows (surfaceProtocol key) (fun m r => ∀ threads, r = .ok threads →
      ReadThreads key orgId ids mayWrite m threads) mayWrite (readThreads orgId needsOnDesk ids) := by
  induction ids generalizing mayWrite with
  | nil =>
    apply Follows.done
    rintro threads ⟨⟩
    exact ⟨fun _ => rfl, fun _ h => absurd h List.not_mem_nil⟩
  | cons id rest ih =>
    obtain ⟨hfresh, hrest⟩ := List.nodup_cons.mp hnodup
    apply Follows.call (fun h => h.elim)
    intro pref _
    generalize hmode : (surfaceProtocol key).after mayWrite (.getConversationPref ⟨orgId, id⟩) pref
      = mode
    apply Follows.bind (follows_of_neutral (neutral_readOnDesk orgId id needsOnDesk))
    · rintro m onDesk rfl
      apply Follows.bind (ih hrest m)
      · intro m' more hmore
        have hread := hmore more rfl
        apply Follows.done
        rintro threads ⟨⟩
        constructor
        · intro hother
          rw [hread.other fun other hmem => hother other (List.mem_cons_of_mem _ hmem), ← hmode]
          exact if_neg (hother id List.mem_cons_self)
        · intro thread hthread hkey
          rcases List.mem_cons.mp hthread with rfl | hmem
          · -- The rest of the threads leaves the mode of this read.
            have hlater : m' = m := by
              apply hread.other
              intro other hother hsame
              have hids : other = id := congrArg PrefKey.threadId (hsame.trans hkey.symm)
              exact hfresh (hids ▸ hother)
            have hmine : m = !isHumanFold pref := hmode.symm.trans (if_pos hkey)
            rw [hlater, hmine]
            cases isHumanFold pref with
            | true => exact Or.inl rfl
            | false => exact Or.inr rfl
          · exact hread.fold thread hmem hkey
      · intro m' e _ threads h
        cases h
    · rintro m e rfl threads h
      cases h

/-- No patch for a thread that was read as folded by a human. -/
theorem surfacePatch_eq_some {orgId now : String} {events : List SurfaceEvent}
    {thread : SurfaceThread} {patch : ConversationPrefPatch}
    (h : surfacePatch orgId now events thread = some patch) :
    isHumanFold thread.pref = false ∧ patch.toPrefKey = ⟨orgId, thread.threadId⟩ := by
  unfold surfacePatch at h
  obtain ⟨next, hnext, hpatch⟩ := Option.bind_eq_some_iff.mp h
  constructor
  · by_contra hfold
    have hhuman : effectiveHiddenReason (surfaceInput events thread).toFold = some .human :=
      of_decide_eq_true (Bool.not_eq_false _ ▸ hfold)
    unfold nextHiddenPref at hnext
    simp [hhuman] at hnext
  · by_cases hsame : thread.pref.map (·.hidden) = some next.hidden ∧
        effectiveHiddenReason (prefFold thread.pref) = if next.hidden then next.reason else none
    · simp only [if_pos hsame] at hpatch
      cases hpatch
    · simp only [if_neg hsame, Option.some.injEq] at hpatch
      rw [← hpatch]

theorem nodup_surfaceThreads (events : List SurfaceEvent) : (surfaceThreads events).Nodup :=
  nodup_keepFirst_id _

/-- Every patch is on a thread that may be written. -/
def PatchesAllowed (key : PrefKey) (mayWrite : Bool) (patches : List ConversationPrefPatch) :
    Prop := ∀ patch ∈ patches, patch.toPrefKey = key → mayWrite = true

theorem follows_collect (orgId now : String) (ids : List String) (known : KnownEvents)
    (mayWrite : Bool) :
    Follows (surfaceProtocol key) (fun m r => ∀ patches, r = .ok patches →
      PatchesAllowed key m patches) mayWrite (collectListSurfacePatches orgId now ids known) := by
  apply Follows.bind (follows_of_neutral (neutral_readEvents orgId known ids))
  · rintro m events rfl
    apply Follows.bind (follows_readThreads orgId _ (nodup_surfaceThreads events) m)
    · intro m' threads hthreads
      have hread := hthreads threads rfl
      apply Follows.done
      rintro patches ⟨⟩ patch hpatch hkey
      obtain ⟨thread, hthread, hsome⟩ := List.mem_filterMap.mp hpatch
      obtain ⟨hfold, hown⟩ := surfacePatch_eq_some hsome
      rcases hread.fold thread hthread (hown.symm.trans hkey) with hhuman | hmay
      · rw [hfold] at hhuman
        cases hhuman
      · exact hmay
    · intro m' e _ patches h
      cases h
  · rintro m e rfl patches h
    cases h

abbrev FollowsSurface (key : PrefKey) (mayWrite : Bool) (p : SurfaceProg Unit) : Prop :=
  Follows (surfaceProtocol key) (fun _ _ => True) mayWrite p

theorem follows_putPatches {mayWrite : Bool} {patches : List ConversationPrefPatch}
    (hallowed : PatchesAllowed key mayWrite patches) :
    FollowsSurface key mayWrite (putPatches patches) := by
  induction patches with
  | nil => exact Follows.done trivial
  | cons patch rest ih =>
    apply Follows.call (hallowed patch List.mem_cons_self)
    intro _ _
    exact ih fun other hother => hallowed other (List.mem_cons_of_mem _ hother)

theorem follows_apply (orgId now : String) (ids : List String) (mayWrite : Bool) :
    FollowsSurface key mayWrite (applyListSurfaceAfterIngest orgId now ids) := by
  apply Follows.bind (follows_collect orgId now ids {} mayWrite)
  · intro m patches hpatches
    exact follows_putPatches (hpatches patches rfl)
  · intro _ _ _
    trivial

/-- The ingest reads the pref before it writes it, and writes it on a read that allows it. -/
theorem follows_ingestSurface (request : SurfaceRequest) :
    FollowsSurface key false (ingestSurface request) := by
  unfold ingestSurface
  cases request.page with
  | none => exact follows_apply _ _ _ false
  | some page =>
    apply Follows.bind (follows_collect request.orgId page.finishedAt request.eventIds page.known
      false)
    · intro m patches hpatches
      apply Follows.call
      · rintro ⟨patch, hpatch, hkey⟩
        exact hpatches patches rfl patch hpatch hkey
      · intro result _
        cases result with
        | ok _ => exact Follows.done trivial
        | error error =>
          cases error with
          | conflict => exact follows_apply _ _ _ m
          | failed message => exact Follows.fail trivial
    · intro _ _ _
      trivial

/-! ## One step -/

theorem putPref_get? (prefs : Prefs) (patch : ConversationPrefPatch) (k : PrefKey) :
    (putConversationPrefUnlocked prefs patch).get? k =
      if patch.toPrefKey = k then some (patchedPref patch (prefs.get? patch.toPrefKey))
      else prefs.get? k := Table.get?_put prefs _ k

theorem foldl_putPref_get? (patches : List ConversationPrefPatch) (prefs : Prefs)
    (h : ∀ patch ∈ patches, patch.toPrefKey ≠ key) :
    (patches.foldl putConversationPrefUnlocked prefs).get? key = prefs.get? key := by
  induction patches generalizing prefs with
  | nil => rfl
  | cons patch rest ih =>
    rw [List.foldl_cons, ih _ fun other hother => h other (List.mem_cons_of_mem _ hother),
      putPref_get?, if_neg (h patch List.mem_cons_self)]

/-- A call that does not write the pref leaves it. -/
theorem exec_folded {c : SurfaceCall} (hwrites : ¬ c.WritesPref key) (leaseHeld : Bool)
    {s : SurfaceStore} (hfolded : Folded key s) : Folded key (c.exec leaseHeld s).2 := by
  cases c with
  | putConversationPref input =>
    change ∃ pref ∈ (putConversationPrefUnlocked s.prefs input).get? key, _
    rw [putPref_get?, if_neg (show ¬ input.toPrefKey = key from hwrites)]
    exact hfolded
  | commitSyncPage ingest prefs =>
    change Folded key (s.commitSyncPage leaseHeld ingest prefs).2
    unfold SurfaceStore.commitSyncPage
    split
    · exact hfolded
    · exact hfolded
    · split
      · have hothers : ∀ patch ∈ prefs, patch.toPrefKey ≠ key :=
          fun patch hpatch hkey => hwrites ⟨patch, hpatch, hkey⟩
        change ∃ pref ∈ (prefs.foldl putConversationPrefUnlocked s.prefs).get? key, _
        rw [foldl_putPref_get? prefs s.prefs hothers]
        exact hfolded
      · exact hfolded
  | _ => exact hfolded

/-- A folded thread is read as one. -/
theorem isHumanFold_read {s : SurfaceStore} (hfolded : Folded key s) :
    isHumanFold (s.getConversationPref key) = true := by
  obtain ⟨pref, hpref, hhidden, hreason⟩ := hfolded
  unfold SurfaceStore.getConversationPref
  rw [show s.prefs.get? key = some pref from hpref]
  simp [isHumanFold, prefFold, toPref, effectiveHiddenReason, hhidden, hreason]

theorem userWrite_get? (s : SurfaceStore) (write : UserWrite) :
    (s.putConversationPref write.patch).prefs.get? write.toPrefKey =
      some (patchedPref write.patch (s.prefs.get? write.toPrefKey)) :=
  (putPref_get? s.prefs write.patch write.toPrefKey).trans (if_pos rfl)

/-- A fold of the user folds, and a write of another field leaves the fold. -/
theorem userWrite_folded {s : SurfaceStore} {write : UserWrite}
    (h : write.hidden = some true ∨ write.hidden = none ∧ Folded write.toPrefKey s) :
    Folded write.toPrefKey (s.putConversationPref write.patch) := by
  refine ⟨_, userWrite_get? s write, ?_⟩
  rcases h with hhidden | ⟨hhidden, pref, hpref, hold, hreason⟩
  · simp [patchedPref, patchedReason, UserWrite.patch, UserWrite.fold, hhidden, foldByHuman]
  · rw [show s.prefs.get? write.toPrefKey = some pref from hpref]
    simp [patchedPref, patchedReason, UserWrite.patch, UserWrite.fold, hhidden, hold, hreason]

theorem userWrite_other {s : SurfaceStore} {write : UserWrite} (hkey : write.toPrefKey ≠ key)
    (hfolded : Folded key s) : Folded key (s.putConversationPref write.patch) := by
  change ∃ pref ∈ (putConversationPrefUnlocked s.prefs write.patch).get? key, _
  rw [putPref_get?, if_neg (show ¬ write.patch.toPrefKey = key from hkey)]
  exact hfolded

/-- The ingest keeps to the protocol, and owes the pref of a folded thread no write. -/
structure Safe (key : PrefKey) (held : Bool) (run : SurfaceRun) : Prop where
  follows : ∃ mayWrite, FollowsSurface key mayWrite run.prog
  folded : held = true → Folded key run.store ∧ ¬ MayWrite key run.prog

theorem next_safe {held : Bool} {run : SurfaceRun} (hsafe : Safe key held run)
    (leaseHeld : Bool) : Safe key held (run.next leaseHeld) := by
  obtain ⟨prog, store⟩ := run
  obtain ⟨⟨mayWrite, hfollows⟩, hfolded⟩ := hsafe
  cases hfollows with
  | done _ => exact ⟨⟨mayWrite, Follows.done trivial⟩, hfolded⟩
  | fail _ => exact ⟨⟨mayWrite, Follows.fail trivial⟩, hfolded⟩
  | @call _ c next hc hnext =>
    have hrest := hnext (c.exec leaseHeld store).1 trivial
    refine ⟨⟨_, hrest⟩, fun hheld => ?_⟩
    obtain ⟨hstore, hquiet⟩ := hfolded hheld
    have hwrites : ¬ c.WritesPref key := fun h => hquiet (MayWrite.now h)
    refine ⟨exec_folded hwrites leaseHeld hstore, ?_⟩
    by_cases hreads : c.ReadsPref key
    · -- The fold is read, and what was read is not written.
      cases c with
      | getConversationPref read =>
        obtain rfl : read = key := hreads
        have hmode : (surfaceProtocol read).after mayWrite (.getConversationPref read)
            (store.getConversationPref read) = false := by
          change (if read = read then !isHumanFold (store.getConversationPref read) else mayWrite) =
            false
          rw [if_pos rfl, isHumanFold_read hstore]
          rfl
        rw [show SurfaceCall.exec (.getConversationPref read) leaseHeld store =
          (store.getConversationPref read, store) from rfl] at hrest
        rw [hmode] at hrest
        exact not_mayWrite_of_follows hrest
      | _ => exact absurd hreads not_false
    · exact fun hlater => hquiet (MayWrite.later hreads _ hlater)

theorem step_safe {held : Bool} {run : SurfaceRun} {e : SurfaceStep} (hsafe : Safe key held run)
    (htime : FoldsInTime key run e) :
    Safe key ((userFold key run e).getD held) (run.step e) := by
  cases e with
  | ingest leaseHeld => exact next_safe hsafe leaseHeld
  | others tables => exact ⟨hsafe.follows, hsafe.folded⟩
  | user write =>
    refine ⟨hsafe.follows, fun hheld => ?_⟩
    by_cases hkey : write.toPrefKey = key
    · subst hkey
      have hword : (userFold write.toPrefKey run (.user write)) = write.hidden := if_pos rfl
      rw [hword] at hheld
      cases hhidden : write.hidden with
      | none =>
        rw [hhidden] at hheld
        obtain ⟨hstore, hquiet⟩ := hsafe.folded hheld
        exact ⟨userWrite_folded (Or.inr ⟨hhidden, hstore⟩), hquiet⟩
      | some hidden =>
        rw [hhidden] at hheld
        obtain rfl : hidden = true := hheld
        exact ⟨userWrite_folded (Or.inl hhidden), htime rfl hhidden⟩
    · have hword : userFold key run (.user write) = none := if_neg hkey
      rw [hword] at hheld
      obtain ⟨hstore, hquiet⟩ := hsafe.folded hheld
      exact ⟨userWrite_other hkey hstore, hquiet⟩

/-! ## Every run -/

theorem latest_safe (events : List SurfaceStep) {held : Bool} {run : SurfaceRun}
    (hsafe : Safe key held run) (htime : Along SurfaceRun.step (FoldsInTime key) run events) :
    Safe key (latest SurfaceRun.step (userFold key) run held events)
      (Lib.run SurfaceRun.step run events) := by
  induction events generalizing held run with
  | nil => exact hsafe
  | cons e rest ih => exact ih (step_safe hsafe htime.1) htime.2

theorem start_safe (request : SurfaceRequest) (store : SurfaceStore) :
    Safe key (decide (Folded key store)) (.start request store) where
  follows := ⟨false, follows_ingestSurface request⟩
  folded hheld := ⟨of_decide_eq_true hheld, not_mayWrite_of_follows (follows_ingestSurface request)⟩

/-- The last fold of the user stands in every state of every run in which it comes at a moment
when the ingest has nothing to write on what it has read of the thread. -/
theorem fold_stands (key : PrefKey) (request : SurfaceRequest) (store : SurfaceStore)
    (events : List SurfaceStep)
    (htime : Along SurfaceRun.step (FoldsInTime key) (.start request store) events) :
    FoldStands key (.start request store) events where
  stands hlast := ((latest_safe events (start_safe request store) htime).folded hlast).1

section Room

def foldedMessage : InsertEventInput :=
  { orgId := "acme", source := "dsh", externalId := "room:1", id := "a", operation := .create
    expectedHeadId := none, threadId := some "dsh:room", occurredAt := "1" }

def foldedWork : ArrangementDecision :=
  { eventId := "a", orgId := "acme", disposition := .currentWork }

/-- A room that policy folded, and new work in it. -/
def roomStore : SurfaceStore where
  tables := ((InboxTables.append {} foldedMessage).bind fun db =>
    db.putDispositionWithinTransaction foldedWork).toOption.getD {}
  prefs := putConversationPrefUnlocked ∅
    { orgId := "acme", threadId := "dsh:room", hidden := some true
      hiddenReason := some (some .policy), updatedAt := "1" }

def roomIngest : SurfaceRequest := { orgId := "acme", now := "2", eventIds := ["a"] }

def roomKey : PrefKey := ⟨"acme", "dsh:room"⟩

def userHides : SurfaceStep := .user { toPrefKey := roomKey, hidden := some true, updatedAt := "2" }

/-- The ingest takes three steps to read the event, its disposition and the pref. -/
def foldsAfter (steps : Nat) : List SurfaceStep :=
  List.replicate steps (.ingest true) ++ userHides :: List.replicate (4 - steps) (.ingest true)

theorem fold_stands_first : FoldStands roomKey (.start roomIngest roomStore) (foldsAfter 0) :=
  fold_stands roomKey roomIngest roomStore (foldsAfter 0)
    ⟨fun _ _ => not_mayWrite_of_follows (follows_ingestSurface roomIngest),
      trivial, trivial, trivial, trivial, trivial⟩

/-- The fold comes after the pref was read, and the ingest reopens the thread. -/
theorem fold_lost :
    (run SurfaceRun.step (.start roomIngest roomStore) (foldsAfter 3)).finished = true ∧
      ¬ FoldStands roomKey (.start roomIngest roomStore) (foldsAfter 3) := by
  refine ⟨by decide +kernel, fun hstands => ?_⟩
  have hfolded := hstands.stands (by decide +kernel)
  revert hfolded
  decide +kernel

end Room

end Regenic.Inbox
