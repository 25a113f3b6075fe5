import Regenic.Lib.Pool

/-!
Programs judged by what they have been told. The mode of a program is its history, the calls
it has made with their answers; what it may call next is a predicate on that history. What is
proved of a program here holds whatever the answers are, so one proof serves every invariant
that reads something into the histories.
-/

namespace Regenic.Lib

variable {Call : Type} {Response : Call → Type} {ε ε' α β : Type}

/-- A call with the answer that it got. -/
abbrev Told (Response : Call → Type) : Type := Σ c : Call, Response c

/-- The last call stands first. -/
abbrev History (Response : Call → Type) : Type := List (Told Response)

def historyProtocol (allowed : History Response → Call → Prop) :
    Protocol Response (History Response) where
  allowed := allowed
  answers _ _ _ := True
  after h c r := ⟨c, r⟩ :: h

/-- With the history `h` behind it the program makes allowed calls only, and its result meets
`post` with the history it then has. -/
def Obeys (allowed : History Response → Call → Prop) (h : History Response)
    (p : Prog Response ε α) (post : History Response → α → Prop) : Prop :=
  Follows (historyProtocol allowed) (fun h' r => h <:+ h' ∧ ∀ a, r = .ok a → post h' a) h p

namespace Obeys

variable {allowed : History Response → Call → Prop} {h : History Response}
  {p : Prog Response ε α} {post : History Response → α → Prop}

theorem done {a : α} (hpost : post h a) : Obeys allowed h (.done a : Prog Response ε α) post := by
  apply Follows.done
  refine ⟨List.suffix_refl h, ?_⟩
  intro b hb
  cases hb
  exact hpost

theorem fail (e : ε) : Obeys allowed h (.fail e : Prog Response ε α) post :=
  Follows.fail ⟨List.suffix_refl h, fun _ hb => nomatch hb⟩

theorem longer {h' : History Response} (hsuffix : h <:+ h') (hp : Obeys allowed h' p post) :
    Follows (historyProtocol allowed)
      (fun h'' r => h <:+ h'' ∧ ∀ a, r = .ok a → post h'' a) h' p :=
  Follows.mono hp fun _ _ hr => ⟨hsuffix.trans hr.1, hr.2⟩

theorem call {c : Call} {next : Response c → Prog Response ε α} (hc : allowed h c)
    (hnext : ∀ r, Obeys allowed (⟨c, r⟩ :: h) (next r) post) :
    Obeys allowed h (.call c next) post :=
  Follows.call hc fun r _ => longer (List.suffix_cons _ h) (hnext r)

theorem mono {post' : History Response → α → Prop} (hp : Obeys allowed h p post)
    (himp : ∀ h' a, h <:+ h' → post h' a → post' h' a) : Obeys allowed h p post' :=
  Follows.mono hp fun _ _ hr => ⟨hr.1, fun a ha => himp _ a hr.1 (hr.2 a ha)⟩

/-- The rule for sequences: what follows is judged with the longer history. -/
theorem bind {f : α → Prog Response ε β} {post' : History Response → β → Prop}
    (hp : Obeys allowed h p post)
    (hf : ∀ h' a, h <:+ h' → post h' a → Obeys allowed h' (f a) post') :
    Obeys allowed h (p.bind f) post' := by
  apply Follows.bind hp
  · intro h' a hr
    exact longer hr.1 (hf h' a hr.1 (hr.2 a rfl))
  · intro h' e hr
    exact ⟨hr.1, fun _ hb => nomatch hb⟩

theorem tryCatch {handler : ε → Prog Response ε' α} {post' : History Response → α → Prop}
    (hp : Obeys allowed h p post) (hok : ∀ h' a, h <:+ h' → post h' a → post' h' a)
    (hcatch : ∀ h' e, h <:+ h' → Obeys allowed h' (handler e) post') :
    Obeys allowed h (p.tryCatch handler) post' := by
  apply Follows.tryCatch hp
  · intro h' a hr
    refine ⟨hr.1, ?_⟩
    intro b hb
    cases hb
    exact hok h' a hr.1 (hr.2 a rfl)
  · intro h' e hr
    exact longer hr.1 (hcatch h' e hr.1)

theorem ite {c : Prop} {_ : Decidable c} {q : Prog Response ε α}
    (hp : c → Obeys allowed h p post) (hq : ¬c → Obeys allowed h q post) :
    Obeys allowed h (if c then p else q) post := by
  by_cases hc : c
  · rw [if_pos hc]
    exact hp hc
  · rw [if_neg hc]
    exact hq hc

/-- A program all of whose calls are allowed whatever else it is told. -/
theorem of_calls {ok : Call → Prop} (hp : p.Calls ok)
    (hallowed : ∀ h' c, h <:+ h' → ok c → allowed h' c) :
    Obeys allowed h p fun _ _ => True := by
  induction p generalizing h with
  | done a => exact done trivial
  | fail e => exact fail e
  | call c next ih =>
    apply call (hallowed h c (List.suffix_refl h) hp.1)
    intro r
    apply ih r (hp.2 r)
    intro h' c' hsuffix
    exact hallowed h' c' ((List.suffix_cons _ h).trans hsuffix)

/-- Programs that nothing is expected of afterwards. -/
theorem follows (hp : Obeys allowed h p post) :
    Follows (historyProtocol allowed) (fun _ _ => True) h p :=
  Follows.mono hp fun _ _ _ => trivial

end Obeys

/-! ## Invariants over histories -/

section Standing

variable {σ : Type} {χ : Type} {allowed : History Response → Call → Prop}
  {exec : (c : Call) → χ → σ → Response c × σ}
  {fork : (c : Call) → Response c → Option (Prog Response ε α)}
  {cond : Call → χ → σ → Prop} {J : σ → Prop} {stands : Told Response → σ → Prop}

/-- A started program has been told how its start was answered. -/
abbrev startHistory (c : Call) (r : Response c) : History Response := [⟨c, r⟩]

/-- Everything a program was told stands in the state. -/
def AllStand (stands : Told Response → σ → Prop) (h : History Response) (s : σ) : Prop :=
  ∀ told ∈ h, stands told s

theorem AllStand.cons {told : Told Response} {h : History Response} {s : σ}
    (hhead : stands told s) (hrest : AllStand stands h s) :
    AllStand stands (told :: h) s := by
  intro t ht
  rcases List.mem_cons.mp ht with rfl | ht
  · exact hhead
  · exact hrest t ht

/-- The rule for an invariant of the state with a meaning of each answer: an allowed call keeps
the first, its own answer stands, and what stood before it still stands. -/
theorem Pool.Keeps.of_standing
    (hstep : ∀ {h s} c w, J s → AllStand stands h s → allowed h c → cond c w s →
      J (exec c w s).2 ∧ stands ⟨c, (exec c w s).1⟩ (exec c w s).2 ∧
        ∀ told, stands told s → stands told (exec c w s).2)
    (hfollows : ∀ h c r p, allowed h c → fork c r = some p →
      Follows (historyProtocol allowed) (fun _ _ => True) (startHistory c r) p) :
    Pool.Keeps (historyProtocol allowed) startHistory exec fork cond
      fun modes s => J s ∧ ∀ i, AllStand stands (modes i) s := by
  apply Pool.Keeps.of_local
  · intro h s c w _ _ _ _
    trivial
  · intro h s c w hJ hh hc hcond
    obtain ⟨hJ', htold, hstable⟩ := hstep c w hJ hh hc hcond
    have hstill : ∀ h', AllStand stands h' s → AllStand stands h' (exec c w s).2 :=
      fun h' hh' told ht => hstable told (hh' told ht)
    exact ⟨hJ', (hstill h hh).cons htold, hstill⟩
  · intro h c r p hc _ hfork
    exact hfollows h c r p hc hfork
  · intro h s c w hJ hh hc hcond _
    obtain ⟨_, htold, _⟩ := hstep c w hJ hh hc hcond
    apply AllStand.cons htold
    intro told ht
    exact absurd ht List.not_mem_nil

end Standing

end Regenic.Lib
