import Mathlib.Logic.Function.Basic
import Regenic.Lib.Prog
import Regenic.Lib.Run

/-!
Pools of programs over one shared state. A step makes the next call of one program, with
what the outside chose for it; a program that is never picked again has crashed. A protocol
gives each program a mode: what it may call now, what it can count on in the answer, and the
mode the answer leads to. When every allowed call keeps an invariant of the modes and the
state, every run of the pool keeps it.
-/

namespace Regenic.Lib

universe u v w

namespace Prog

variable {Call : Type} {Response : Call → Type} {ε ε' α β : Type}

def tryCatch (handler : ε → Prog Response ε' α) : Prog Response ε α → Prog Response ε' α
  | .done a => .done a
  | .fail e => handler e
  | .call c next => .call c fun r => (next r).tryCatch handler

@[simp] theorem done_tryCatch (handler : ε → Prog Response ε' α) (a : α) :
    (Prog.done a : Prog Response ε α).tryCatch handler = .done a := rfl

@[simp] theorem fail_tryCatch (handler : ε → Prog Response ε' α) (e : ε) :
    (Prog.fail e : Prog Response ε α).tryCatch handler = handler e := rfl

@[simp] theorem call_tryCatch (handler : ε → Prog Response ε' α) (c : Call)
    (next : Response c → Prog Response ε α) :
    (Prog.call c next).tryCatch handler = .call c fun r => (next r).tryCatch handler := rfl

theorem calls_tryCatch {ok : Call → Prop} {handler : ε → Prog Response ε' α}
    {p : Prog Response ε α} (hp : p.Calls ok) (hhandler : ∀ e, (handler e).Calls ok) :
    (p.tryCatch handler).Calls ok := by
  induction p with
  | done a => trivial
  | fail e => exact hhandler e
  | call c next ih => exact ⟨hp.1, fun r => ih r (hp.2 r)⟩

end Prog

/-! ## Protocols -/

structure Protocol {Call : Type} (Response : Call → Type) (M : Type u) where
  allowed : M → Call → Prop
  answers : M → (c : Call) → Response c → Prop
  after : M → (c : Call) → Response c → M

section Protocols

variable {Call : Type} {Response : Call → Type} {M : Type u} {ε ε' α β : Type}

/-- The program keeps to the protocol from this mode on, and ends in a mode and with a
result that meet `post`. -/
inductive Follows (P : Protocol Response M) (post : M → Except ε α → Prop) :
    M → Prog Response ε α → Prop where
  | done {m : M} {a : α} (h : post m (.ok a)) : Follows P post m (.done a)
  | fail {m : M} {e : ε} (h : post m (.error e)) : Follows P post m (.fail e)
  | call {m : M} {c : Call} {next : Response c → Prog Response ε α} (hc : P.allowed m c)
      (hnext : ∀ r, P.answers m c r → Follows P post (P.after m c r) (next r)) :
      Follows P post m (.call c next)

namespace Follows

variable {P : Protocol Response M} {m : M} {p : Prog Response ε α}

theorem mono {post post' : M → Except ε α → Prop} (hp : Follows P post m p)
    (himp : ∀ m r, post m r → post' m r) : Follows P post' m p := by
  induction hp with
  | done h => exact .done (himp _ _ h)
  | fail h => exact .fail (himp _ _ h)
  | call hc hnext ih => exact .call hc ih

/-- The rule for sequences: what follows is entered in a mode the first part ends in. -/
theorem bind {post : M → Except ε α → Prop} {post' : M → Except ε β → Prop}
    {f : α → Prog Response ε β} (hp : Follows P post m p)
    (hok : ∀ m a, post m (.ok a) → Follows P post' m (f a))
    (herror : ∀ m e, post m (.error e) → post' m (.error e)) :
    Follows P post' m (p.bind f) := by
  induction hp with
  | done h => exact hok _ _ h
  | fail h => exact .fail (herror _ _ h)
  | call hc hnext ih => exact .call hc ih

theorem tryCatch {post : M → Except ε α → Prop} {post' : M → Except ε' α → Prop}
    {handler : ε → Prog Response ε' α} (hp : Follows P post m p)
    (hok : ∀ m a, post m (.ok a) → post' m (.ok a))
    (hcatch : ∀ m e, post m (.error e) → Follows P post' m (handler e)) :
    Follows P post' m (p.tryCatch handler) := by
  induction hp with
  | done h => exact .done (hok _ _ h)
  | fail h => exact hcatch _ _ h
  | call hc hnext ih => exact .call hc ih

end Follows

end Protocols

/-! ## Pools -/

/-- The programs, each at what it has left to do, and the state they share. -/
structure Pool {Call : Type} (Response : Call → Type) (ε α : Type) (σ : Type v) where
  procs : List (Prog Response ε α)
  state : σ

namespace Pool

variable {Call : Type} {Response : Call → Type} {ε α : Type} {σ : Type v} {χ : Type w}

/-- The call that program `i` makes when it is picked. -/
def asks (pool : Pool Response ε α σ) (i : Nat) : Option Call :=
  match pool.procs[i]? with
  | some (.call c _) => some c
  | _ => none

/-- Program `i` has ended without an error. -/
def returned (pool : Pool Response ε α σ) (i : Nat) : Bool :=
  match pool.procs[i]? with
  | some (.done _) => true
  | _ => false

/-- Every program has ended, those that were started on the way too. -/
def finished (pool : Pool Response ε α σ) : Bool :=
  pool.procs.all fun
    | .call _ _ => false
    | _ => true

theorem returned_eq_true {pool : Pool Response ε α σ} {i : Nat} (h : pool.returned i = true) :
    ∃ a, pool.procs[i]? = some (.done a) := by
  unfold returned at h
  cases hp : pool.procs[i]? with
  | none => simp [hp] at h
  | some p =>
    cases p with
    | done a => exact ⟨a, rfl⟩
    | fail err => simp [hp] at h
    | call c next => simp [hp] at h

section Steps

variable (exec : (c : Call) → χ → σ → Response c × σ)
  (fork : (c : Call) → Response c → Option (Prog Response ε α))

/-- Program `e.1` makes its next call. A call may start a further program. -/
def step (pool : Pool Response ε α σ) (e : Nat × χ) : Pool Response ε α σ :=
  match pool.procs[e.1]? with
  | some (.call c next) =>
    { procs := pool.procs.set e.1 (next (exec c e.2 pool.state).1) ++
        (fork c (exec c e.2 pool.state).1).toList
      state := (exec c e.2 pool.state).2 }
  | _ => pool

/-- The call of this step, when there is one, meets the condition in the state it is made
in. -/
def Meets (cond : Call → χ → σ → Prop) (pool : Pool Response ε α σ) (e : Nat × χ) : Prop :=
  ∀ c, pool.asks e.1 = some c → cond c e.2 pool.state

instance (cond : Call → χ → σ → Prop) [∀ c w s, Decidable (cond c w s)]
    (pool : Pool Response ε α σ) (e : Nat × χ) : Decidable (Meets cond pool e) :=
  inferInstanceAs (Decidable (∀ c ∈ pool.asks e.1, cond c e.2 pool.state))

variable {exec fork}

theorem step_of_asks {pool : Pool Response ε α σ} {e : Nat × χ} {c : Call}
    {next : Response c → Prog Response ε α} (h : pool.procs[e.1]? = some (.call c next)) :
    step exec fork pool e =
      { procs := pool.procs.set e.1 (next (exec c e.2 pool.state).1) ++
          (fork c (exec c e.2 pool.state).1).toList
        state := (exec c e.2 pool.state).2 } := by
  simp only [step, h]

theorem step_of_asks_none {pool : Pool Response ε α σ} {e : Nat × χ}
    (h : pool.asks e.1 = none) : step exec fork pool e = pool := by
  unfold asks at h
  unfold step
  cases hp : pool.procs[e.1]? with
  | none => rfl
  | some p =>
    cases p with
    | done a => rfl
    | fail err => rfl
    | call c next => simp [hp] at h

theorem asks_eq_some {pool : Pool Response ε α σ} {i : Nat} {c : Call}
    (h : pool.asks i = some c) : ∃ next, pool.procs[i]? = some (.call c next) := by
  unfold asks at h
  cases hp : pool.procs[i]? with
  | none => simp [hp] at h
  | some p =>
    cases p with
    | done a => simp [hp] at h
    | fail err => simp [hp] at h
    | call c' next =>
      simp only [hp, Option.some.injEq] at h
      subst h
      exact ⟨next, rfl⟩

/-- What every call keeps, whoever makes it, a step keeps. -/
theorem step_state (inv : σ → Prop) (hexec : ∀ c w s, inv s → inv (exec c w s).2)
    (pool : Pool Response ε α σ) (e : Nat × χ) (h : inv pool.state) :
    inv (step exec fork pool e).state := by
  cases hasks : pool.asks e.1 with
  | none => rwa [step_of_asks_none hasks]
  | some c =>
    obtain ⟨next, hnext⟩ := asks_eq_some hasks
    rw [step_of_asks hnext]
    exact hexec c e.2 pool.state h

end Steps

/-! ## The invariant rule -/

section Invariants

variable {M : Type u} (P : Protocol Response M) (child : (c : Call) → Response c → M)
  (exec : (c : Call) → χ → σ → Response c × σ)
  (fork : (c : Call) → Response c → Option (Prog Response ε α))
  (cond : Call → χ → σ → Prop)

/-- Every program keeps to the protocol from its mode on and ends as it is to end. -/
def Follow (posts : Nat → M → Except ε α → Prop) (modes : Nat → M)
    (pool : Pool Response ε α σ) : Prop :=
  ∀ i p, pool.procs[i]? = some p → Follows P (posts i) (modes i) p

/-- Every call the protocol allows is answered as the protocol says and keeps the
invariant, and so does the start of a further program. -/
structure Keeps (inv : (Nat → M) → σ → Prop) : Prop where
  answers : ∀ {modes s} i c w, inv modes s → P.allowed (modes i) c → cond c w s →
    P.answers (modes i) c (exec c w s).1
  next : ∀ {modes s} i c w, inv modes s → P.allowed (modes i) c → cond c w s →
    inv (Function.update modes i (P.after (modes i) c (exec c w s).1)) (exec c w s).2
  follows : ∀ m c r p, P.allowed m c → P.answers m c r → fork c r = some p →
    Follows P (fun _ _ => True) (child c r) p
  start : ∀ {modes s} i n c w, inv modes s → P.allowed (modes i) c → cond c w s → n ≠ i →
    (fork c (exec c w s).1).isSome →
    inv (Function.update (Function.update modes i (P.after (modes i) c (exec c w s).1)) n
      (child c (exec c w s).1)) (exec c w s).2

variable {P child exec fork cond} {inv : (Nat → M) → σ → Prop}
  {posts : Nat → M → Except ε α → Prop}

/-- The mode of whoever makes a call allows it. -/
theorem Follow.allowed {modes : Nat → M} {pool : Pool Response ε α σ}
    (hp : pool.Follow P posts modes) {i : Nat} {c : Call} (h : pool.asks i = some c) :
    P.allowed (modes i) c := by
  obtain ⟨next, hnext⟩ := asks_eq_some h
  cases hp i _ hnext with
  | call hc _ => exact hc

/-- How a program ended that has ended. -/
theorem Follow.ended {modes : Nat → M} {pool : Pool Response ε α σ}
    (hp : pool.Follow P posts modes) {i : Nat} {a : α} (h : pool.procs[i]? = some (.done a)) :
    posts i (modes i) (.ok a) := by
  cases hp i _ h with
  | done hpost => exact hpost

/-- Nothing is asked of the ends of programs that are yet to start. -/
def FreeEnds (posts : Nat → M → Except ε α → Prop) (pool : Pool Response ε α σ) : Prop :=
  ∀ n, pool.procs.length ≤ n → ∀ m r, posts n m r

theorem freeEnds_true (pool : Pool Response ε α σ) :
    FreeEnds (fun (_ : Nat) (_ : M) (_ : Except ε α) => True) pool := fun _ _ _ _ => trivial

theorem length_le_step (pool : Pool Response ε α σ) (e : Nat × χ) :
    pool.procs.length ≤ (step exec fork pool e).procs.length := by
  cases hasks : pool.asks e.1 with
  | none => simp only [step_of_asks_none hasks, Nat.le_refl]
  | some c =>
    obtain ⟨next, hnext⟩ := asks_eq_some hasks
    rw [step_of_asks hnext, List.length_append, List.length_set]
    exact Nat.le_add_right _ _

theorem FreeEnds.step {pool : Pool Response ε α σ} (h : FreeEnds posts pool) (e : Nat × χ) :
    FreeEnds posts (Pool.step exec fork pool e) :=
  fun n hn => h n (Nat.le_trans (length_le_step pool e) hn)

theorem Keeps.step (hkeeps : Keeps P child exec fork cond inv) {modes : Nat → M}
    {pool : Pool Response ε α σ} (hposts : FreeEnds posts pool)
    (hp : pool.Follow P posts modes) (hinv : inv modes pool.state)
    (e : Nat × χ) (hmeets : Meets cond pool e) :
    ∃ modes', (step exec fork pool e).Follow P posts modes' ∧
      inv modes' (step exec fork pool e).state := by
  cases hasks : pool.asks e.1 with
  | none =>
    rw [step_of_asks_none hasks]
    exact ⟨modes, hp, hinv⟩
  | some c =>
    obtain ⟨next, hnext⟩ := asks_eq_some hasks
    have hallowed := hp.allowed hasks
    have hcond := hmeets c hasks
    have hanswers := hkeeps.answers e.1 c e.2 hinv hallowed hcond
    have hlt : e.1 < pool.procs.length := (List.getElem?_eq_some_iff.mp hnext).1
    have hself : Follows P (posts e.1) (P.after (modes e.1) c (exec c e.2 pool.state).1)
        (next (exec c e.2 pool.state).1) := by
      cases hp e.1 _ hnext with
      | call _ hfollows => exact hfollows _ hanswers
    rw [step_of_asks hnext]
    have hset : ∀ i p, (pool.procs.set e.1 (next (exec c e.2 pool.state).1))[i]? = some p →
        Follows P (posts i) (Function.update modes e.1
          (P.after (modes e.1) c (exec c e.2 pool.state).1) i) p := by
      intro i p hi
      rw [List.getElem?_set] at hi
      by_cases heq : e.1 = i
      · subst heq
        rw [if_pos rfl, if_pos hlt, Option.some.injEq] at hi
        rw [← hi, Function.update_self]
        exact hself
      · rw [if_neg heq] at hi
        rw [Function.update_of_ne (Ne.symm heq)]
        exact hp i p hi
    cases hfork : fork c (exec c e.2 pool.state).1 with
    | none =>
      refine ⟨_, ?_, hkeeps.next e.1 c e.2 hinv hallowed hcond⟩
      intro i p hi
      rw [Option.toList_none, List.append_nil] at hi
      exact hset i p hi
    | some q =>
      -- The new program stands behind the others.
      have hne : pool.procs.length ≠ e.1 := by omega
      refine ⟨_, ?_, hkeeps.start e.1 pool.procs.length c e.2 hinv hallowed hcond hne
        (by rw [hfork]; rfl)⟩
      intro i p hi
      by_cases heq : i = pool.procs.length
      · subst heq
        have hq : q = p := by simpa using hi
        rw [Function.update_self, ← hq]
        apply Follows.mono (hkeeps.follows _ _ _ _ hallowed hanswers hfork)
        intro m r _
        exact hposts _ (Nat.le_refl _) m r
      · rw [Function.update_of_ne heq]
        apply hset i p
        rw [List.getElem?_append] at hi
        split at hi
        · exact hi
        · next hge =>
          rw [List.length_set] at hge hi
          have hlast : i - pool.procs.length < [q].length :=
            (List.getElem?_eq_some_iff.mp hi).1
          rw [List.length_singleton] at hlast
          omega

/-- What every allowed call keeps, every run keeps whose calls meet the condition. -/
theorem Keeps.run (hkeeps : Keeps P child exec fork cond inv) {modes : Nat → M}
    {pool : Pool Response ε α σ} (hposts : FreeEnds posts pool)
    (hp : pool.Follow P posts modes) (hinv : inv modes pool.state)
    (events : List (Nat × χ)) (hmeets : Along (Pool.step exec fork) (Meets cond) pool events) :
    ∃ modes', (Lib.run (Pool.step exec fork) pool events).Follow P posts modes' ∧
      inv modes' (Lib.run (Pool.step exec fork) pool events).state := by
  induction events generalizing pool modes with
  | nil => exact ⟨modes, hp, hinv⟩
  | cons e rest ih =>
    obtain ⟨modes', hp', hinv'⟩ := hkeeps.step hposts hp hinv e hmeets.1
    exact ih (hposts.step e) hp' hinv' hmeets.2

/-- What the invariant and the modes say of a call holds of every call of the run. -/
theorem Keeps.along (hkeeps : Keeps P child exec fork cond inv) {goal : Call → χ → σ → Prop}
    (hgoal : ∀ {modes s} i c w, inv modes s → P.allowed (modes i) c → cond c w s →
      goal c w s)
    {modes : Nat → M} {pool : Pool Response ε α σ} (hposts : FreeEnds posts pool)
    (hp : pool.Follow P posts modes) (hinv : inv modes pool.state) (events : List (Nat × χ))
    (hmeets : Along (Pool.step exec fork) (Meets cond) pool events) :
    Along (Pool.step exec fork) (Meets goal) pool events := by
  induction events generalizing pool modes with
  | nil => trivial
  | cons e rest ih =>
    obtain ⟨modes', hp', hinv'⟩ := hkeeps.step hposts hp hinv e hmeets.1
    refine ⟨?_, ih (hposts.step e) hp' hinv' hmeets.2⟩
    intro c hasks
    exact hgoal e.1 c e.2 hinv (hp.allowed hasks) (hmeets.1 c hasks)

/-- The rule for an invariant of the state together with what each mode says of the state:
a call keeps the first, what its own mode then says and what any other mode says. -/
theorem Keeps.of_local {J : σ → Prop} {K : M → σ → Prop}
    (hanswers : ∀ {m s} c w, J s → K m s → P.allowed m c → cond c w s →
      P.answers m c (exec c w s).1)
    (hstep : ∀ {m s} c w, J s → K m s → P.allowed m c → cond c w s →
      J (exec c w s).2 ∧ K (P.after m c (exec c w s).1) (exec c w s).2 ∧
        ∀ m', K m' s → K m' (exec c w s).2)
    (hfollows : ∀ m c r p, P.allowed m c → P.answers m c r → fork c r = some p →
      Follows P (fun _ _ => True) (child c r) p)
    (hchild : ∀ {m s} c w, J s → K m s → P.allowed m c → cond c w s →
      (fork c (exec c w s).1).isSome → K (child c (exec c w s).1) (exec c w s).2) :
    Keeps P child exec fork cond fun modes s => J s ∧ ∀ i, K (modes i) s where
  answers := fun i c w h hc hcond => hanswers c w h.1 (h.2 i) hc hcond
  next := by
    intro modes s i c w h hc hcond
    obtain ⟨hJ, hself, hothers⟩ := hstep c w h.1 (h.2 i) hc hcond
    refine ⟨hJ, fun j => ?_⟩
    by_cases hj : j = i
    · rw [hj, Function.update_self]
      exact hself
    · rw [Function.update_of_ne hj]
      exact hothers _ (h.2 j)
  follows := hfollows
  start := by
    intro modes s i n c w h hc hcond hn hfork
    obtain ⟨hJ, hself, hothers⟩ := hstep c w h.1 (h.2 i) hc hcond
    refine ⟨hJ, fun j => ?_⟩
    by_cases hj : j = n
    · rw [hj, Function.update_self]
      exact hchild c w h.1 (h.2 i) hc hcond hfork
    · rw [Function.update_of_ne hj]
      by_cases hji : j = i
      · rw [hji, Function.update_self]
        exact hself
      · rw [Function.update_of_ne hji]
        exact hothers _ (h.2 j)

end Invariants

end Pool

end Regenic.Lib
