import Mathlib.Data.List.Basic
import Mathlib.Order.Basic

/-!
Runs of a deterministic step function: the invariant rule, the rule for runs
whose steps meet a condition in their own pre-state, the last value written to
a register along a run, and weights summed along a run.
-/

namespace Regenic.Lib

universe u v w x

variable {σ : Type u} {ε : Type v} {γ : Type w}

/-- The state after `events`, one step for each event in order. -/
def run (step : σ → ε → σ) (s : σ) (events : List ε) : σ := events.foldl step s

@[simp] theorem run_nil (step : σ → ε → σ) (s : σ) : run step s [] = s := rfl

@[simp] theorem run_cons (step : σ → ε → σ) (s : σ) (e : ε) (events : List ε) :
    run step s (e :: events) = run step (step s e) events := rfl

theorem run_append (step : σ → ε → σ) (s : σ) (first second : List ε) :
    run step s (first ++ second) = run step (run step s first) second :=
  List.foldl_append

/-- The induction for safety: what every step keeps, every run keeps. -/
theorem run_invariant (step : σ → ε → σ) (inv : σ → Prop)
    (hstep : ∀ s e, inv s → inv (step s e)) (s : σ) (hs : inv s) (events : List ε) :
    inv (run step s events) := by
  induction events generalizing s with
  | nil => exact hs
  | cons e rest ih => exact ih (step s e) (hstep s e hs)

/-- A run that ends where `p` holds, from where it does not, takes a step that makes it hold. -/
theorem run_turns (step : σ → ε → σ) (p : σ → Prop) (s : σ) (events : List ε) (hs : ¬p s)
    (hend : p (run step s events)) :
    ∃ before e after, events = before ++ e :: after ∧ ¬p (run step s before) ∧
      p (step (run step s before) e) := by
  induction events generalizing s with
  | nil => exact absurd hend hs
  | cons e rest ih =>
    by_cases hstep : p (step s e)
    · exact ⟨[], e, rest, rfl, hs, hstep⟩
    · obtain ⟨before, e', after, hsplit, hbefore, hafter⟩ := ih (step s e) hstep hend
      exact ⟨e :: before, e', after, congrArg (e :: ·) hsplit, hbefore, hafter⟩

/-- Every step of the run meets `ok` in the state it is taken in. -/
def Along (step : σ → ε → σ) (ok : σ → ε → Prop) : σ → List ε → Prop
  | _, [] => True
  | s, e :: events => ok s e ∧ Along step ok (step s e) events

instance decidableAlong (step : σ → ε → σ) (ok : σ → ε → Prop)
    [∀ s e, Decidable (ok s e)] : ∀ s events, Decidable (Along step ok s events)
  | _, [] => isTrue trivial
  | s, e :: events =>
    have := decidableAlong step ok (step s e) events
    inferInstanceAs (Decidable (ok s e ∧ Along step ok (step s e) events))

section Conditions

variable (step : σ → ε → σ) {ok : σ → ε → Prop}

theorem along_append (s : σ) (first second : List ε) :
    Along step ok s (first ++ second) ↔
      Along step ok s first ∧ Along step ok (run step s first) second := by
  induction first generalizing s with
  | nil => simp [Along]
  | cons e rest ih => simp only [List.cons_append, Along, run_cons, ih, and_assoc]

/-- The invariant rule for runs whose steps meet a condition. -/
theorem along_invariant (inv : σ → Prop)
    (hstep : ∀ s e, inv s → ok s e → inv (step s e)) (s : σ) (hs : inv s)
    (events : List ε) (hok : Along step ok s events) : inv (run step s events) := by
  induction events generalizing s with
  | nil => exact hs
  | cons e rest ih => exact ih (step s e) (hstep s e hs hok.1) hok.2

theorem along_and {ok' : σ → ε → Prop} (s : σ) (events : List ε)
    (h : Along step ok s events) (h' : Along step ok' s events) :
    Along step (fun s e => ok s e ∧ ok' s e) s events := by
  induction events generalizing s with
  | nil => trivial
  | cons e rest ih => exact ⟨⟨h.1, h'.1⟩, ih (step s e) h.2 h'.2⟩

/-- Two step properties that agree wherever the invariant holds agree along
every run. -/
theorem along_iff {good : σ → ε → Prop} (inv : σ → Prop)
    (hinv : ∀ s e, inv s → inv (step s e))
    (hiff : ∀ s e, inv s → (ok s e ↔ good s e)) (s : σ) (hs : inv s)
    (events : List ε) : Along step ok s events ↔ Along step good s events := by
  induction events generalizing s with
  | nil => exact Iff.rfl
  | cons e rest ih =>
    simp only [Along]
    exact and_congr (hiff s e hs) (ih (step s e) (hinv s e hs))

theorem along_mono {ok' : σ → ε → Prop} (h : ∀ s e, ok s e → ok' s e) (s : σ) (events : List ε)
    (hok : Along step ok s events) : Along step ok' s events := by
  induction events generalizing s with
  | nil => trivial
  | cons e rest ih => exact ⟨h s e hok.1, ih (step s e) hok.2⟩

theorem along_of_forall (h : ∀ s e, ok s e) (s : σ) (events : List ε) :
    Along step ok s events := by
  induction events generalizing s with
  | nil => trivial
  | cons e rest ih => exact ⟨h s e, ih (step s e)⟩

end Conditions

section Transactions

/-- What every successful step on a listed event keeps, a fold that stops at the
first error keeps. -/
theorem foldlM_invariant_mem {μ : Type w} {f : σ → ε → Except μ σ} (inv : σ → Prop)
    {events : List ε} (hf : ∀ s e s', e ∈ events → inv s → f s e = .ok s' → inv s')
    (s s' : σ) (hs : inv s) (hrun : events.foldlM f s = .ok s') : inv s' := by
  induction events generalizing s with
  | nil =>
    simp only [List.foldlM_nil, pure, Except.pure, Except.ok.injEq] at hrun
    exact hrun ▸ hs
  | cons e rest ih =>
    simp only [List.foldlM_cons, bind, Except.bind] at hrun
    cases hstep : f s e with
    | error message =>
      rw [hstep] at hrun
      cases hrun
    | ok next =>
      rw [hstep] at hrun
      exact ih (fun t e' t' he' => hf t e' t' (List.mem_cons_of_mem e he')) next
        (hf s e next List.mem_cons_self hs hstep) hrun

theorem foldlM_invariant {μ : Type w} {f : σ → ε → Except μ σ} (inv : σ → Prop)
    (hf : ∀ s e s', inv s → f s e = .ok s' → inv s') (events : List ε) (s s' : σ)
    (hs : inv s) (hrun : events.foldlM f s = .ok s') : inv s' :=
  foldlM_invariant_mem inv (fun t e t' _ => hf t e t') s s' hs hrun

/-- A fold that stops at the first error, and came to its end, follows a fold that cannot stop. -/
theorem foldlM_simulates {μ : Type w} {τ : Type x} {f : σ → ε → Except μ σ} {g : τ → ε → τ}
    (rel : σ → τ → Prop) {events : List ε}
    (hf : ∀ s t e s', e ∈ events → rel s t → f s e = .ok s' → rel s' (g t e))
    (s s' : σ) (t : τ) (hs : rel s t) (hrun : events.foldlM f s = .ok s') :
    rel s' (events.foldl g t) := by
  induction events generalizing s t with
  | nil =>
    cases hrun
    exact hs
  | cons e rest ih =>
    simp only [List.foldlM_cons, bind, Except.bind] at hrun
    cases hstep : f s e with
    | error message =>
      rw [hstep] at hrun
      cases hrun
    | ok middle =>
      rw [hstep] at hrun
      exact ih (fun s t e s' he => hf s t e s' (List.mem_cons_of_mem _ he)) middle (g t e)
        (hf s t e middle List.mem_cons_self hs hstep) hrun

/-- Every step of a fold that stops at the first error meets `ok` in the state it is taken
in. -/
def AlongM {μ : Type w} (f : σ → ε → Except μ σ) (ok : σ → ε → Prop) : σ → List ε → Prop
  | _, [] => True
  | s, e :: events => ok s e ∧ match f s e with
    | .ok s' => AlongM f ok s' events
    | .error _ => True

instance decidableAlongM {μ : Type w} (f : σ → ε → Except μ σ) (ok : σ → ε → Prop)
    [∀ s e, Decidable (ok s e)] : ∀ s events, Decidable (AlongM f ok s events)
  | _, [] => isTrue trivial
  | s, e :: events =>
    have : Decidable (match f s e with
        | .ok s' => AlongM f ok s' events
        | .error _ => True) :=
      match f s e with
      | .ok s' => decidableAlongM f ok s' events
      | .error _ => isTrue trivial
    inferInstanceAs (Decidable (ok s e ∧ match f s e with
      | .ok s' => AlongM f ok s' events
      | .error _ => True))

theorem alongM_invariant {μ : Type w} {f : σ → ε → Except μ σ} {ok : σ → ε → Prop}
    (inv : σ → Prop) (hf : ∀ s e s', inv s → ok s e → f s e = .ok s' → inv s')
    (events : List ε) (s s' : σ) (hs : inv s) (hok : AlongM f ok s events)
    (hrun : events.foldlM f s = .ok s') : inv s' := by
  induction events generalizing s with
  | nil =>
    cases hrun
    exact hs
  | cons e rest ih =>
    obtain ⟨hfirst, hrest⟩ := hok
    simp only [List.foldlM_cons, bind, Except.bind] at hrun
    cases hstep : f s e with
    | error message =>
      rw [hstep] at hrun
      cases hrun
    | ok middle =>
      rw [hstep] at hrun hrest
      exact ih middle (hf s e middle hs hfirst hstep) hrest hrun

end Transactions

section Registers

variable (step : σ → ε → σ)

/-- The last value written along the run, or `held` when nothing wrote. -/
def latest (write : σ → ε → Option γ) : σ → γ → List ε → γ
  | _, held, [] => held
  | s, held, e :: events =>
    latest write (step s e) ((write s e).getD held) events

/-- A register of the state that every step sets to what the step writes holds
the last value written, so the history and the state tell the same holder. -/
theorem latest_eq_read (write : σ → ε → Option γ) (read : σ → γ) (inv : σ → Prop)
    (hinv : ∀ s e, inv s → inv (step s e))
    (hread : ∀ s e, inv s → read (step s e) = (write s e).getD (read s))
    (s : σ) (hs : inv s) (events : List ε) :
    latest step write s (read s) events = read (run step s events) := by
  induction events generalizing s with
  | nil => rfl
  | cons e rest ih =>
    simp only [latest, run_cons]
    rw [← hread s e hs]
    exact ih (step s e) (hinv s e hs)

end Registers

section Tallies

variable (step : σ → ε → σ)

/-- The sum of a step's weight over the run. -/
def tally (weight : σ → ε → Nat) : σ → List ε → Nat
  | _, [] => 0
  | s, e :: events => weight s e + tally weight (step s e) events

/-- A potential that pays for `spent` and is fed by `earned`, step by step,
bounds what the whole run spends. -/
theorem tally_balance (spent earned : σ → ε → Nat) (potential : σ → Nat)
    (inv : σ → Prop) (hinv : ∀ s e, inv s → inv (step s e))
    (hstep : ∀ s e, inv s →
      potential (step s e) + spent s e ≤ potential s + earned s e)
    (s : σ) (hs : inv s) (events : List ε) :
    potential (run step s events) + tally step spent s events ≤
      potential s + tally step earned s events := by
  induction events generalizing s with
  | nil => simp [tally]
  | cons e rest ih =>
    have hhead := hstep s e hs
    have htail := ih (step s e) (hinv s e hs)
    simp only [run_cons, tally]
    omega

end Tallies

end Regenic.Lib
