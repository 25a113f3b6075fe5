import Mathlib.Logic.Basic

/-!
Programs that talk to a shared state through atomic calls. A program is run alone, all its
calls in order, or one call at a time among other programs. What a program may call is a
predicate on its text, whatever the answers are; calls that keep an invariant compose to
programs that keep it.
-/

namespace Regenic.Lib

universe u

/-- A program that makes calls, ends with a result or stops with an error. -/
inductive Prog {Call : Type} (Response : Call → Type) (ε α : Type) where
  | done (a : α)
  | fail (e : ε)
  | call (c : Call) (next : Response c → Prog Response ε α)

namespace Prog

variable {Call : Type} {Response : Call → Type} {ε α β : Type}

def bind : Prog Response ε α → (α → Prog Response ε β) → Prog Response ε β
  | .done a, f => f a
  | .fail e, _ => .fail e
  | .call c next, f => .call c fun r => (next r).bind f

instance : Monad (Prog Response ε) where
  pure := .done
  bind := .bind

def perform (c : Call) : Prog Response ε (Response c) := .call c .done

@[simp] theorem pure_eq (a : α) : (pure a : Prog Response ε α) = .done a := rfl

@[simp] theorem bind_eq (p : Prog Response ε α) (f : α → Prog Response ε β) :
    p >>= f = p.bind f := rfl

@[simp] theorem done_bind (a : α) (f : α → Prog Response ε β) :
    (Prog.done a : Prog Response ε α).bind f = f a := rfl

@[simp] theorem fail_bind (e : ε) (f : α → Prog Response ε β) :
    (Prog.fail e : Prog Response ε α).bind f = .fail e := rfl

@[simp] theorem call_bind (c : Call) (next : Response c → Prog Response ε α)
    (f : α → Prog Response ε β) :
    (Prog.call c next).bind f = .call c fun r => (next r).bind f := rfl

section Running

variable {σ : Type u} (exec : (c : Call) → σ → Response c × σ)

/-- The result of a program run alone, and the state it leaves. -/
def run : Prog Response ε α → σ → Except ε α × σ
  | .done a, s => (.ok a, s)
  | .fail e, s => (.error e, s)
  | .call c next, s => (next (exec c s).1).run (exec c s).2

@[simp] theorem run_done (a : α) (s : σ) :
    (Prog.done a : Prog Response ε α).run exec s = (.ok a, s) := rfl

@[simp] theorem run_fail (e : ε) (s : σ) :
    (Prog.fail e : Prog Response ε α).run exec s = (.error e, s) := rfl

@[simp] theorem run_call (c : Call) (next : Response c → Prog Response ε α) (s : σ) :
    (Prog.call c next).run exec s = (next (exec c s).1).run exec (exec c s).2 := rfl

@[simp] theorem run_perform (c : Call) (s : σ) :
    (perform c : Prog Response ε (Response c)).run exec s =
      (.ok (exec c s).1, (exec c s).2) := rfl

theorem run_bind (p : Prog Response ε α) (f : α → Prog Response ε β) (s : σ) :
    (p.bind f).run exec s = match p.run exec s with
      | (.ok a, s') => (f a).run exec s'
      | (.error e, s') => (.error e, s') := by
  induction p generalizing s with
  | done a => rfl
  | fail e => rfl
  | call c next ih => exact ih (exec c s).1 (exec c s).2

/-- A program that continues with `f` has first ended with a result. -/
theorem run_bind_ok {p : Prog Response ε α} {f : α → Prog Response ε β} {s s'' : σ} {b : β}
    (h : (p.bind f).run exec s = (.ok b, s'')) :
    ∃ a s', p.run exec s = (.ok a, s') ∧ (f a).run exec s' = (.ok b, s'') := by
  rw [run_bind] at h
  cases hp : p.run exec s with
  | mk result s' =>
    rw [hp] at h
    cases result with
    | ok a => exact ⟨a, s', rfl, h⟩
    | error e => cases h

theorem run_bind_of_ok {p : Prog Response ε α} (f : α → Prog Response ε β) {s s' : σ} {a : α}
    (h : p.run exec s = (.ok a, s')) : (p.bind f).run exec s = (f a).run exec s' := by
  rw [run_bind, h]

end Running

section Calls

/-- Every call the program can come to make meets `ok`, whatever the answers. -/
def Calls (ok : Call → Prop) : Prog Response ε α → Prop
  | .done _ => True
  | .fail _ => True
  | .call c next => ok c ∧ ∀ r, (next r).Calls ok

variable {ok : Call → Prop}

theorem calls_bind {p : Prog Response ε α} {f : α → Prog Response ε β} (hp : p.Calls ok)
    (hf : ∀ a, (f a).Calls ok) : (p.bind f).Calls ok := by
  induction p with
  | done a => exact hf a
  | fail e => trivial
  | call c next ih => exact ⟨hp.1, fun r => ih r (hp.2 r)⟩

theorem calls_ite {c : Prop} {_ : Decidable c} {p q : Prog Response ε α} (hp : c → p.Calls ok)
    (hq : ¬c → q.Calls ok) : (if c then p else q).Calls ok := by
  by_cases hc : c
  · rw [if_pos hc]
    exact hp hc
  · rw [if_neg hc]
    exact hq hc

theorem calls_perform {c : Call} (h : ok c) :
    (perform c : Prog Response ε (Response c)).Calls ok := ⟨h, fun _ => trivial⟩

theorem Calls.mono {ok' : Call → Prop} {p : Prog Response ε α} (h : p.Calls ok)
    (himp : ∀ c, ok c → ok' c) : p.Calls ok' := by
  induction p with
  | done a => trivial
  | fail e => trivial
  | call c next ih => exact ⟨himp c h.1, fun r => ih r (h.2 r)⟩

variable {σ : Type u} {exec : (c : Call) → σ → Response c × σ}

/-- What every allowed call keeps, a run of the program keeps. -/
theorem Calls.run_invariant (inv : σ → Prop)
    (hcall : ∀ c s, ok c → inv s → inv (exec c s).2) {p : Prog Response ε α}
    (hp : p.Calls ok) (s : σ) (hs : inv s) : inv (p.run exec s).2 := by
  induction p generalizing s with
  | done a => exact hs
  | fail e => exact hs
  | call c next ih => exact ih _ (hp.2 _) _ (hcall c s hp.1 hs)

/-- A program of calls that leave the state alone leaves the state alone. -/
theorem Calls.run_state (hcall : ∀ c s, ok c → (exec c s).2 = s) {p : Prog Response ε α}
    (hp : p.Calls ok) (s : σ) : (p.run exec s).2 = s :=
  hp.run_invariant (fun t => t = s)
    (fun c t hc ht => by rw [hcall c t hc, ht]) s rfl

end Calls

end Prog

end Regenic.Lib
