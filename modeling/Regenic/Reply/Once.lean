import Regenic.Reply.Protocol

/-!
A reply is delivered at most once. The attempt row, the modes of the replicas and the history
of the channel's calls are tied by one invariant: a replica that holds an id holds a pending
row without a receipt, nobody else holds it, and an id that can be claimed has only refused
sends behind it.
-/

namespace Regenic.Reply

open Lib OutboundAttempts

/-! ## The invariant -/

section Invariant

variable (orgId : String)

def ReplyMode.id? : ReplyMode → Option String
  | .free | .ended => none
  | .holding id | .sending id _ | .refused id | .delivered id | .recovering id => some id

/-- Between its claim and its put. -/
def ReplyMode.Holds (mode : ReplyMode) (id : String) : Prop :=
  mode.id? = some id ∧ mode ≠ .recovering id

def PendingRow (s : ReplyState) (id : String) : Prop :=
  ∃ row, s.attempts.get? (orgId, id) = some row ∧ row.status = .pending ∧ row.receipt = none

def HasReceipt (s : ReplyState) (id : String) : Prop :=
  ∃ row, s.attempts.get? (orgId, id) = some row ∧ row.receipt ≠ none

def Claimable (s : ReplyState) (id : String) : Prop :=
  ∀ row, s.attempts.get? (orgId, id) = some row → row.status = .rejected ∧ row.receipt = none

/-- Every call of `egress.send` for the id, but the one at `except`, was refused. -/
def RefusedBut (except : Option Nat) (s : ReplyState) (id : String) : Prop :=
  ∀ (index : Nat) (sent : SendCall), s.sends[index]? = some sent → sent.idempotencyKey = id →
    some index ≠ except → sent.NotAccepted

abbrev AllRefused : ReplyState → String → Prop := RefusedBut none

/-- What a replica's mode says about the row and the calls of its id. -/
def Knows (s : ReplyState) : ReplyMode → Prop
  | .free | .ended => True
  | .holding id | .refused id => PendingRow orgId s id ∧ AllRefused s id
  | .sending id index => PendingRow orgId s id ∧ RefusedBut (some index) s id ∧
      ∃ sent, s.sends[index]? = some sent ∧ sent.idempotencyKey = id
  | .delivered id => PendingRow orgId s id
  | .recovering id => HasReceipt orgId s id

structure ReplyInv (modes : Nat → ReplyMode) (s : ReplyState) : Prop where
  knows : ∀ i, Knows orgId s (modes i)
  oneHolder : ∀ i j id, (modes i).Holds id → (modes j).Holds id → i = j
  claimable : ∀ id, Claimable orgId s id → AllRefused s id

end Invariant

section Facts

variable {orgId : String} {s s' : ReplyState} {id : String}

theorem pendingRow_not_hasReceipt (h : PendingRow orgId s id) : ¬ HasReceipt orgId s id := by
  rintro ⟨row', hrow', hreceipt⟩
  obtain ⟨row, hrow, _, hnone⟩ := h
  rw [hrow, Option.some.injEq] at hrow'
  rw [← hrow'] at hreceipt
  exact hreceipt hnone

theorem pendingRow_not_claimable (h : PendingRow orgId s id) : ¬ Claimable orgId s id := by
  intro hclaim
  obtain ⟨row, hrow, hpending, _⟩ := h
  have hrejected := (hclaim row hrow).1
  rw [hpending] at hrejected
  cases hrejected

theorem hasReceipt_not_claimable (h : HasReceipt orgId s id) : ¬ Claimable orgId s id := by
  intro hclaim
  obtain ⟨row, hrow, hreceipt⟩ := h
  exact hreceipt (hclaim row hrow).2

theorem pendingRow_of_holds {mode : ReplyMode} (h : Knows orgId s mode)
    (hholds : mode.Holds id) : PendingRow orgId s id := by
  obtain ⟨hid, hne⟩ := hholds
  cases mode with
  | free => cases hid
  | ended => cases hid
  | holding id' =>
    cases hid
    exact h.1
  | sending id' index =>
    cases hid
    exact h.1
  | refused id' =>
    cases hid
    exact h.1
  | delivered id' =>
    cases hid
    exact h
  | recovering id' =>
    cases hid
    exact absurd rfl hne

/-- The row of the id and what its calls say are as before. -/
structure Untouched (orgId : String) (s s' : ReplyState) (id : String) : Prop where
  row : s'.attempts.get? (orgId, id) = s.attempts.get? (orgId, id)
  refused : ∀ except, RefusedBut except s id → RefusedBut except s' id
  call : ∀ (index : Nat) (sent : SendCall), s.sends[index]? = some sent → sent.idempotencyKey = id →
    ∃ sent' : SendCall, s'.sends[index]? = some sent' ∧ sent'.idempotencyKey = id

theorem untouched_refl (s : ReplyState) (id : String) : Untouched orgId s s id :=
  ⟨rfl, fun _ h => h, fun _ sent h hid => ⟨sent, h, hid⟩⟩

theorem Untouched.knows (hsame : Untouched orgId s s' id) {mode : ReplyMode}
    (hid : mode.id? = some id) (h : Knows orgId s mode) : Knows orgId s' mode := by
  have hpending : PendingRow orgId s id → PendingRow orgId s' id := by
    intro hrow
    unfold PendingRow
    rw [hsame.row]
    exact hrow
  cases mode with
  | free => trivial
  | ended => trivial
  | holding id' =>
    cases hid
    exact ⟨hpending h.1, hsame.refused none h.2⟩
  | refused id' =>
    cases hid
    exact ⟨hpending h.1, hsame.refused none h.2⟩
  | sending id' index =>
    cases hid
    obtain ⟨hrow, hrefused, sent, hsent, hkey⟩ := h
    exact ⟨hpending hrow, hsame.refused _ hrefused, hsame.call index sent hsent hkey⟩
  | delivered id' =>
    cases hid
    exact hpending h
  | recovering id' =>
    cases hid
    obtain ⟨row, hrow, hreceipt⟩ := h
    exact ⟨row, hsame.row.trans hrow, hreceipt⟩

theorem eq_of_holds {mode : ReplyMode} {id' : String}
    (hmode : mode.id? = none ∨ mode.id? = some id) (h : mode.Holds id') : id' = id := by
  have hid := h.1
  rcases hmode with hnone | hsome
  · rw [hnone] at hid
    cases hid
  · rw [hsome] at hid
    exact (Option.some.inj hid).symm

/-- The rule of one step: it touches one id, and says where its maker and the others of that
id then stand. -/
theorem ReplyInv.update {modes : Nat → ReplyMode} (h : ReplyInv orgId modes s) (i : Nat)
    (id : String) {mode : ReplyMode} (hother : ∀ id', id' ≠ id → Untouched orgId s s' id')
    (hmode : mode.id? = none ∨ mode.id? = some id) (hknows : Knows orgId s' mode)
    (hclaimable : Claimable orgId s' id → AllRefused s' id)
    (hpeers : ∀ j, j ≠ i → (modes j).id? = some id →
      Knows orgId s' (modes j) ∧ ¬ (mode.Holds id ∧ (modes j).Holds id)) :
    ReplyInv orgId (Function.update modes i mode) s' := by
  constructor
  · intro j
    by_cases hj : j = i
    · rw [hj, Function.update_self]
      exact hknows
    · rw [Function.update_of_ne hj]
      cases hid : (modes j).id? with
      | none =>
        cases hmodej : modes j with
        | free => trivial
        | ended => trivial
        | _ => rw [hmodej] at hid; cases hid
      | some id' =>
        by_cases heq : id' = id
        · rw [heq] at hid
          exact (hpeers j hj hid).1
        · exact (hother id' heq).knows hid (h.knows j)
  · intro j k id' hjHolds hkHolds
    by_cases hj : j = i
    · by_cases hk : k = i
      · rw [hj, hk]
      · rw [hj, Function.update_self] at hjHolds
        rw [Function.update_of_ne hk] at hkHolds
        have heq := eq_of_holds hmode hjHolds
        rw [heq] at hjHolds hkHolds
        exact absurd ⟨hjHolds, hkHolds⟩ (hpeers k hk hkHolds.1).2
    · rw [Function.update_of_ne hj] at hjHolds
      by_cases hk : k = i
      · rw [hk, Function.update_self] at hkHolds
        have heq := eq_of_holds hmode hkHolds
        rw [heq] at hjHolds hkHolds
        exact absurd ⟨hkHolds, hjHolds⟩ (hpeers j hj hjHolds.1).2
      · rw [Function.update_of_ne hk] at hkHolds
        exact h.oneHolder j k id' hjHolds hkHolds
  · intro id' hclaim
    by_cases heq : id' = id
    · rw [heq] at hclaim ⊢
      exact hclaimable hclaim
    · have hrow := (hother id' heq).row
      have hbefore : Claimable orgId s id' := by
        intro row hget
        exact hclaim row (hrow.trans hget)
      exact (hother id' heq).refused none (h.claimable id' hbefore)

/-- Whoever stands with a claimable id has neither claimed it nor read its receipt. -/
theorem not_peer_of_claimable {mode : ReplyMode} (h : Knows orgId s mode)
    (hclaim : Claimable orgId s id) : mode.id? ≠ some id := by
  intro hid
  by_cases hmode : mode = .recovering id
  · rw [hmode] at h
    exact hasReceipt_not_claimable h hclaim
  · exact pendingRow_not_claimable (pendingRow_of_holds h ⟨hid, hmode⟩) hclaim

/-- Nobody else stands with an id that is held. -/
theorem ReplyInv.not_peer {modes : Nat → ReplyMode} (h : ReplyInv orgId modes s) {i j : Nat}
    (hi : (modes i).Holds id) (hj : j ≠ i) : (modes j).id? ≠ some id := by
  intro hid
  by_cases hmode : modes j = .recovering id
  · have hreceipt := h.knows j
    rw [hmode] at hreceipt
    exact pendingRow_not_hasReceipt (pendingRow_of_holds (h.knows i) hi) hreceipt
  · exact hj (h.oneHolder j i id ⟨hid, hmode⟩ hi)

end Facts

/-! ## The steps -/

section Steps

variable {orgId : String} {s : ReplyState} {modes : Nat → ReplyMode}

/-- A replica that gives up, or has not begun, says nothing about any id. -/
theorem ReplyInv.drop (h : ReplyInv orgId modes s) (i : Nat) {mode : ReplyMode}
    (hmode : mode.id? = none) : ReplyInv orgId (Function.update modes i mode) s := by
  have hknows : Knows orgId s mode := by
    cases mode with
    | free => trivial
    | ended => trivial
    | _ => cases hmode
  refine h.update i "" (fun id' _ => untouched_refl s id') (Or.inl hmode) hknows
    (h.claimable _) fun j _ _ => ⟨h.knows j, fun hboth => ?_⟩
  have hid := hboth.1.1
  rw [hmode] at hid
  cases hid

theorem ReplyInv.keep (h : ReplyInv orgId modes s) (i : Nat) :
    ReplyInv orgId (Function.update modes i (modes i)) s := by
  rw [Function.update_eq_self]
  exact h

theorem read_receipt {id : String} {row : OutboundAttempt}
    (hread : s.attempts.getOutboundAttempt orgId id = some row) (hreceipt : row.receipt.isSome) :
    HasReceipt orgId s id := by
  unfold getOutboundAttempt at hread
  obtain ⟨stored, hstored, hrow⟩ := Option.map_eq_some_iff.mp hread
  refine ⟨stored, hstored, ?_⟩
  have hsame : row.receipt = stored.receipt := by rw [← hrow]; rfl
  rw [← hsame]
  exact Option.isSome_iff_ne_none.mp hreceipt

theorem ReplyInv.read (h : ReplyInv orgId modes s) (i : Nat) (readOrg id : String) :
    ReplyInv orgId (Function.update modes i
      (afterRead orgId (modes i) readOrg id (s.attempts.getOutboundAttempt readOrg id))) s := by
  by_cases hmode : modes i = .free
  · rw [hmode]
    cases hread : s.attempts.getOutboundAttempt readOrg id with
    | none => exact h.drop i rfl
    | some row =>
      by_cases hrecover : readOrg = orgId ∧ row.status = .accepted ∧ row.receipt.isSome
      · have hafter : afterRead orgId .free readOrg id (some row) = .recovering id := by
          simp only [afterRead, if_pos hrecover]
        rw [hafter]
        obtain ⟨horg, _, hreceipt⟩ := hrecover
        rw [horg] at hread
        refine h.update i id (fun id' _ => untouched_refl s id') (Or.inr rfl)
          (read_receipt hread hreceipt) (h.claimable id) fun j _ _ => ⟨h.knows j, fun hboth => ?_⟩
        exact hboth.1.2 rfl
      · have hafter : afterRead orgId .free readOrg id (some row) = .free := by
          simp only [afterRead, if_neg hrecover]
        rw [hafter]
        exact h.drop i rfl
  · rw [afterRead_of_ne_free hmode]
    exact h.keep i

/-- Only the attempt under the id changes, and no call is added. -/
theorem untouched_of_attempts {attempts : OutboundAttempts} {id' : String}
    (hrow : attempts.get? (orgId, id') = s.attempts.get? (orgId, id')) :
    Untouched orgId s { s with attempts } id' :=
  ⟨hrow, fun _ h => h, fun _ sent h hid => ⟨sent, h, hid⟩⟩

theorem ReplyInv.claim (h : ReplyInv orgId modes s) (i : Nat) {input : NewOutboundAttempt}
    (horg : input.orgId = orgId) (hclaimed : (s.attempts.claimOutboundAttempt input).1 = true)
    {mode : ReplyMode}
    (hmode : mode = .holding input.clientRequestId ∨ mode.id? = none) :
    ReplyInv orgId (Function.update modes i mode)
      { s with attempts := (s.attempts.claimOutboundAttempt input).2 } := by
  have hclaimable : Claimable orgId s input.clientRequestId := by
    intro row hrow
    rw [← horg] at hrow
    exact claim_eq_true hclaimed hrow
  have hpending : PendingRow orgId
      { s with attempts := (s.attempts.claimOutboundAttempt input).2 } input.clientRequestId := by
    obtain ⟨row, hrow, hstatus, hreceipt⟩ := get?_claim_of_true hclaimed
    rw [horg] at hrow
    exact ⟨row, hrow, hstatus, hreceipt⟩
  have hrefused := h.claimable _ hclaimable
  refine h.update i input.clientRequestId ?_ ?_ ?_ ?_ ?_
  · intro id' hne
    refine untouched_of_attempts (get?_claim_of_ne ?_)
    intro heq
    exact hne (Prod.ext_iff.mp heq).2
  · rcases hmode with rfl | hnone
    · exact Or.inr rfl
    · exact Or.inl hnone
  · rcases hmode with rfl | hnone
    · exact ⟨hpending, hrefused⟩
    · cases mode with
      | free => trivial
      | ended => trivial
      | _ => cases hnone
  · intro hagain
    exact absurd hagain (pendingRow_not_claimable hpending)
  · intro j _ hid
    exact absurd hid (not_peer_of_claimable (h.knows j) hclaimable)

theorem ReplyInv.startSend (h : ReplyInv orgId modes s) (i : Nat) {intent : SendIntent}
    (hmode : modes i = .holding intent.idempotencyKey) :
    ReplyInv orgId (Function.update modes i (.sending intent.idempotencyKey s.sends.length))
      { s with sends := s.sends ++ [{ idempotencyKey := intent.idempotencyKey }] } := by
  have hknows := h.knows i
  rw [hmode] at hknows
  obtain ⟨hpending, hrefused⟩ := hknows
  have hholds : (modes i).Holds intent.idempotencyKey := by
    rw [hmode]
    exact ⟨rfl, nofun⟩
  refine h.update i intent.idempotencyKey ?_ (Or.inr rfl) ?_ ?_ ?_
  · intro id' hne
    refine ⟨rfl, ?_, ?_⟩
    · intro except hbefore index sent hsent hkey hexcept
      rw [List.getElem?_append] at hsent
      split at hsent
      · exact hbefore index sent hsent hkey hexcept
      · obtain ⟨_, hlast⟩ := List.getElem?_eq_some_iff.mp hsent
        rw [List.getElem_singleton] at hlast
        rw [← hlast] at hkey
        exact absurd hkey.symm hne
    · intro index sent hsent hkey
      have hlt : index < s.sends.length := (List.getElem?_eq_some_iff.mp hsent).1
      exact ⟨sent, (List.getElem?_append_left hlt).trans hsent, hkey⟩
  · refine ⟨hpending, ?_, ?_⟩
    · intro index sent hsent hkey hexcept
      rw [List.getElem?_append] at hsent
      split at hsent
      · exact hrefused index sent hsent hkey nofun
      · next hge =>
        have hlast := (List.getElem?_eq_some_iff.mp hsent).1
        rw [List.length_singleton] at hlast
        have hindex : index = s.sends.length := by omega
        exact absurd (congrArg some hindex) hexcept
    · exact ⟨{ idempotencyKey := intent.idempotencyKey }, List.getElem?_concat_length, rfl⟩
  · intro hclaim
    exact absurd hclaim (pendingRow_not_claimable hpending)
  · intro j hj hid
    exact absurd hid (h.not_peer hholds hj)

/-- The end of a send changes nothing but that call's outcome. -/
theorem getElem?_settle {index k : Nat} {outcome : Except Thrown DeliveryReceipt}
    {sent : SendCall} (h : (s.settle index outcome).sends[k]? = some sent) :
    ∃ before, s.sends[k]? = some before ∧ sent.idempotencyKey = before.idempotencyKey ∧
      (k = index → sent.outcome = some outcome) ∧ (k ≠ index → sent = before) := by
  unfold ReplyState.settle at h
  rw [List.getElem?_modify] at h
  obtain ⟨before, hbefore, heq⟩ := Option.map_eq_some_iff.mp h
  refine ⟨before, hbefore, ?_⟩
  by_cases hk : index = k
  · simp only [if_pos hk] at heq
    rw [← heq]
    exact ⟨rfl, fun _ => rfl, fun hne => absurd hk.symm hne⟩
  · simp only [if_neg hk] at heq
    rw [← heq]
    exact ⟨rfl, fun heq' => absurd heq'.symm hk, fun _ => rfl⟩

theorem settle_getElem? {index k : Nat} {outcome : Except Thrown DeliveryReceipt}
    {before : SendCall} (h : s.sends[k]? = some before) :
    ∃ sent, (s.settle index outcome).sends[k]? = some sent ∧
      sent.idempotencyKey = before.idempotencyKey := by
  unfold ReplyState.settle
  rw [List.getElem?_modify, h]
  by_cases hk : index = k
  · exact ⟨{ before with outcome := some outcome }, by simp [hk], rfl⟩
  · exact ⟨before, by simp [hk], rfl⟩

theorem ReplyInv.awaitSend (h : ReplyInv orgId modes s) (i : Nat) {id : String} {index : Nat}
    (hmode : modes i = .sending id index) (outcome : Except Thrown DeliveryReceipt) :
    ReplyInv orgId (Function.update modes i (afterSend id outcome)) (s.settle index outcome) := by
  have hknows := h.knows i
  rw [hmode] at hknows
  obtain ⟨hpending, hrefused, call, hcall, hkey⟩ := hknows
  have hholds : (modes i).Holds id := by
    rw [hmode]
    exact ⟨rfl, nofun⟩
  refine h.update i id ?_ ?_ ?_ ?_ ?_
  · intro id' hne
    refine ⟨rfl, ?_, ?_⟩
    · intro except hbefore k sent hsent hsentKey hexcept
      obtain ⟨before, hget, hsame, _, hother⟩ := getElem?_settle hsent
      have hk : k ≠ index := by
        intro heq
        rw [heq, hcall, Option.some.injEq] at hget
        rw [← hget, hkey] at hsame
        exact hne (hsentKey.symm.trans hsame)
      rw [hother hk]
      exact hbefore k before hget (hsame.symm.trans hsentKey) hexcept
    · intro k sent hsent hsentKey
      obtain ⟨sent', hget, hsame⟩ := settle_getElem? hsent
      exact ⟨sent', hget, hsame.trans hsentKey⟩
  · cases outcome with
    | ok receipt =>
      by_cases haccepted : receipt.accepted
      · exact Or.inr (by simp [afterSend, haccepted, ReplyMode.id?])
      · exact Or.inl (by simp [afterSend, haccepted, ReplyMode.id?])
    | error e =>
      cases e with
      | sendNotAccepted code message reason => exact Or.inr rfl
      | _ => exact Or.inl rfl
  · cases outcome with
    | ok receipt =>
      by_cases haccepted : receipt.accepted
      · simp only [afterSend, haccepted, if_true]
        exact hpending
      · simp [afterSend, haccepted, Knows]
    | error e =>
      cases e with
      | sendNotAccepted code message reason =>
        refine ⟨hpending, ?_⟩
        intro k sent hsent hsentKey _
        obtain ⟨before, hget, hsame, hat, hother⟩ := getElem?_settle hsent
        by_cases hk : k = index
        · exact ⟨code, message, reason, hat hk⟩
        · rw [hother hk]
          exact hrefused k before hget (hsame.symm.trans hsentKey) fun heq =>
            hk (Option.some.inj heq)
      | _ => trivial
  · intro hclaim
    have hrow : PendingRow orgId (s.settle index outcome) id := hpending
    exact absurd hclaim (pendingRow_not_claimable hrow)
  · intro j hj hid
    exact absurd hid (h.not_peer hholds hj)

/-- What a put that the protocol allows makes of the row. -/
theorem put_cases (h : ReplyInv orgId modes s) (i : Nat) {input : OutboundAttemptPut}
    (createdAt : String) (hput : PutAllowed orgId input (modes i)) :
    let s' := { s with attempts := s.attempts.upsertOutboundAttempt input createdAt }
    (modes i = .refused input.clientRequestId ∧ AllRefused s input.clientRequestId ∧
        PendingRow orgId s input.clientRequestId) ∨
      ((modes i = .delivered input.clientRequestId ∧ PendingRow orgId s input.clientRequestId ∨
          modes i = .recovering input.clientRequestId) ∧
        HasReceipt orgId s' input.clientRequestId) := by
  have hknows := h.knows i
  obtain ⟨row, hrow, _, hreceipt⟩ := get?_upsert s.attempts input createdAt
  cases hmode : modes i with
  | refused id =>
    rw [hmode] at hput hknows
    obtain ⟨_, rfl, _, _⟩ := hput
    exact Or.inl ⟨rfl, hknows.2, hknows.1⟩
  | delivered id =>
    rw [hmode] at hput hknows
    obtain ⟨rfl, rfl, hsome⟩ := hput
    refine Or.inr ⟨Or.inl ⟨rfl, hknows⟩, row, hrow, ?_⟩
    obtain ⟨receipt, hinput⟩ := Option.isSome_iff_exists.mp hsome
    rw [hreceipt, hinput]
    exact nofun
  | recovering id =>
    rw [hmode] at hput hknows
    obtain ⟨rfl, rfl⟩ := hput
    refine Or.inr ⟨Or.inr rfl, row, hrow, ?_⟩
    obtain ⟨previous, hprevious, hkept⟩ := hknows
    rw [hreceipt, hprevious]
    cases hinput : input.receipt with
    | none => exact hkept
    | some receipt => exact nofun
  | _ =>
    rw [hmode] at hput
    cases hput

theorem ReplyInv.put (h : ReplyInv orgId modes s) (i : Nat) {input : OutboundAttemptPut}
    (createdAt : String) (hput : PutAllowed orgId input (modes i)) (r : Except Thrown Unit) :
    ReplyInv orgId (Function.update modes i (afterPut (modes i) r))
      { s with attempts := s.attempts.upsertOutboundAttempt input createdAt } := by
  have hother : ∀ id', id' ≠ input.clientRequestId → Untouched orgId s
      { s with attempts := s.attempts.upsertOutboundAttempt input createdAt } id' := by
    intro id' hne
    refine untouched_of_attempts (get?_upsert_of_ne ?_)
    intro heq
    exact hne (Prod.ext_iff.mp heq).2
  rcases put_cases h i createdAt hput with ⟨hmode, hrefused, _⟩ | ⟨hmode, hreceipt⟩
  · have hholds : (modes i).Holds input.clientRequestId := by
      rw [hmode]
      exact ⟨rfl, nofun⟩
    have hafter : afterPut (modes i) r = .ended := by
      rw [hmode]
      cases r <;> rfl
    rw [hafter]
    refine h.update i input.clientRequestId hother (Or.inl rfl) trivial (fun _ => hrefused) ?_
    intro j hj hid
    exact absurd hid (h.not_peer hholds hj)
  · have hafter : afterPut (modes i) r = .recovering input.clientRequestId ∨
        afterPut (modes i) r = .ended := by
      rcases hmode with ⟨hmode, _⟩ | hmode <;> rw [hmode] <;> cases r <;> simp [afterPut]
    refine h.update i input.clientRequestId hother ?_ ?_ ?_ ?_
    · rcases hafter with heq | heq <;> rw [heq]
      · exact Or.inr rfl
      · exact Or.inl rfl
    · rcases hafter with heq | heq <;> rw [heq]
      · exact hreceipt
      · trivial
    · intro hclaim
      exact absurd hclaim (hasReceipt_not_claimable hreceipt)
    · intro j hj hid
      -- A peer of a recovering replica recovers too; a delivering one has no peers.
      rcases hmode with ⟨hmode, _⟩ | hmode
      · have hholds : (modes i).Holds input.clientRequestId := by
          rw [hmode]
          exact ⟨rfl, nofun⟩
        exact absurd hid (h.not_peer hholds hj)
      · have hpeer : modes j = .recovering input.clientRequestId := by
          by_contra hne
          have hi := h.knows i
          rw [hmode] at hi
          exact pendingRow_not_hasReceipt (pendingRow_of_holds (h.knows j) ⟨hid, hne⟩) hi
        rw [hpeer]
        exact ⟨hreceipt, fun hboth => hboth.2.2 rfl⟩

theorem ReplyInv.putFailed (h : ReplyInv orgId modes s) (i : Nat) (e : Thrown) :
    ReplyInv orgId (Function.update modes i (afterPut (modes i) (.error e))) s := by
  cases hmode : modes i with
  | recovering id =>
    show ReplyInv orgId (Function.update modes i (.recovering id)) s
    rw [← hmode]
    exact h.keep i
  | _ => exact h.drop i rfl

end Steps

/-! ## Runs -/

section Runs

variable {orgId : String}

def noFork (c : ReplyCall) (_ : c.Response) : Option (ReplyProg ReplyView) := none

abbrev ReplyPool : Type := Pool ReplyCall.Response Thrown ReplyView ReplyState

abbrev ReplyPool.step (pool : ReplyPool) (e : Nat × ReplyEnv) : ReplyPool :=
  Pool.step ReplyCall.exec noFork pool e

/-- The replicas that serve these requests, none of which has begun, and the attempts that
are on record. -/
def ReplyPool.start (orgId : String) (requests : List ReplyInput)
    (attempts : OutboundAttempts) : ReplyPool :=
  { procs := requests.map (send orgId), state := { attempts } }

/-- What a call leaves behind, whether its answer arrives or not. -/
theorem withFault_cases {α : Type} (fault : Option StoreFault) (s : ReplyState)
    (result : α × ReplyState) :
    withFault fault s result = (.ok result.1, result.2) ∨
      (∃ e, withFault fault s result = (.error e, s)) ∨
      ∃ e, withFault fault s result = (.error e, result.2) := by
  cases fault with
  | none => exact Or.inl rfl
  | some fault =>
    cases fault with
    | before e => exact Or.inr (Or.inl ⟨e, rfl⟩)
    | after e => exact Or.inr (Or.inr ⟨e, rfl⟩)

theorem withFault_state {α : Type} (inv : ReplyState → Prop) (fault : Option StoreFault)
    {s : ReplyState} {result : α × ReplyState} (hbefore : inv s) (hafter : inv result.2) :
    inv (withFault fault s result).2 := by
  rcases withFault_cases fault s result with heq | ⟨e, heq⟩ | ⟨e, heq⟩ <;> rw [heq]
  · exact hafter
  · exact hbefore
  · exact hafter

theorem ReplyInv.exec {modes : Nat → ReplyMode} {s : ReplyState} (h : ReplyInv orgId modes s)
    (i : Nat) (c : ReplyCall) (env : ReplyEnv) (hc : (protocol orgId).allowed (modes i) c) :
    ReplyInv orgId
      (Function.update modes i ((protocol orgId).after (modes i) c (c.exec env s).1))
      (c.exec env s).2 := by
  cases c with
  | getOutboundAttempt readOrg id =>
    have hexec : (ReplyCall.getOutboundAttempt readOrg id).exec env s =
        withFault env.fault s (s.attempts.getOutboundAttempt readOrg id, s) := rfl
    rw [hexec]
    rcases withFault_cases env.fault s (s.attempts.getOutboundAttempt readOrg id, s) with
      heq | ⟨e, heq⟩ | ⟨e, heq⟩ <;> rw [heq]
    · exact h.read i readOrg id
    · exact h.keep i
    · exact h.keep i
  | claimOutboundAttempt input =>
    obtain ⟨hfree, horg⟩ := hc
    have hexec : (ReplyCall.claimOutboundAttempt input).exec env s =
        withFault env.fault s ((s.attempts.claimOutboundAttempt input).1,
          { s with attempts := (s.attempts.claimOutboundAttempt input).2 }) := rfl
    rw [hexec]
    cases hclaimed : (s.attempts.claimOutboundAttempt input).1 with
    | false =>
      rw [claim_eq_false hclaimed]
      rcases withFault_cases env.fault s (false, s) with heq | ⟨e, heq⟩ | ⟨e, heq⟩ <;> rw [heq]
      · exact h.drop i rfl
      · exact h.drop i rfl
      · exact h.drop i rfl
    | true =>
      rcases withFault_cases env.fault s
          (true, { s with attempts := (s.attempts.claimOutboundAttempt input).2 }) with
        heq | ⟨e, heq⟩ | ⟨e, heq⟩ <;> rw [heq]
      · exact h.claim i horg hclaimed (Or.inl rfl)
      · exact h.drop i rfl
      · exact h.claim i horg hclaimed (Or.inr rfl)
  | upsertOutboundAttempt input createdAt =>
    have hexec : (ReplyCall.upsertOutboundAttempt input createdAt).exec env s =
        withFault env.fault s
          ((), { s with attempts := s.attempts.upsertOutboundAttempt input createdAt }) := rfl
    rw [hexec]
    rcases withFault_cases env.fault s
        ((), { s with attempts := s.attempts.upsertOutboundAttempt input createdAt }) with
      heq | ⟨e, heq⟩ | ⟨e, heq⟩ <;> rw [heq]
    · exact h.put i createdAt hc (.ok ())
    · exact h.putFailed i e
    · exact h.put i createdAt hc (.error e)
  | startSend intent => exact h.startSend i hc
  | awaitSend index =>
    obtain ⟨id, hmode⟩ := hc
    have hafter : (protocol orgId).after (modes i) (.awaitSend index)
        ((ReplyCall.awaitSend index).exec env s).1 = afterSend id env.sendOutcome := by
      rw [hmode]
      rfl
    rw [hafter]
    exact h.awaitSend i hmode env.sendOutcome
  | outside call => exact h.keep i

/-- A call is a send only by the holder of its id, all of whose earlier sends were refused. -/
def OnlyAfterRefusal (c : ReplyCall) (_ : ReplyEnv) (s : ReplyState) : Prop :=
  ∀ intent, c = .startSend intent → ∀ sent ∈ s.sends,
    sent.idempotencyKey = intent.idempotencyKey → sent.NotAccepted

theorem reply_keeps : Pool.Keeps (protocol orgId) (fun _ _ => ReplyMode.ended) ReplyCall.exec
    noFork (fun _ _ _ => True) (ReplyInv orgId) where
  answers := by
    intro modes s i c env _ _ _
    cases c with
    | startSend intent => exact ⟨_, rfl⟩
    | _ => trivial
  next := fun i c env h hc _ => h.exec i c env hc
  follows := fun _ _ _ _ _ _ hfork => nomatch hfork
  start := fun _ _ _ _ _ _ _ _ hfork => nomatch hfork

theorem start_follow (requests : List ReplyInput) (attempts : OutboundAttempts) :
    (ReplyPool.start orgId requests attempts).Follow (protocol orgId) (fun _ _ _ => True) fun _ => .free := by
  intro i p hp
  obtain ⟨input, _, rfl⟩ := List.mem_map.mp (List.mem_of_getElem? hp)
  exact send_follows input

theorem start_inv (attempts : OutboundAttempts) :
    ReplyInv orgId (fun _ => .free) { attempts } where
  knows := fun _ => trivial
  oneHolder := fun _ _ _ hi => nomatch hi.1
  claimable := fun _ _ _ _ hsent => nomatch hsent

/-- Recorded as accepted or sent, or with the channel's receipt. -/
def Settled (orgId id : String) (s : ReplyState) : Prop :=
  ∃ row, s.attempts.get? (orgId, id) = some row ∧
    (row.receipt ≠ none ∨ row.status = .accepted ∨ row.status = .sent)

theorem settled_not_pending {id : String} {s : ReplyState} (h : Settled orgId id s) :
    ¬ PendingRow orgId s id := by
  rintro ⟨row', hrow', hpending, hnone⟩
  obtain ⟨row, hrow, hsettled⟩ := h
  rw [hrow, Option.some.injEq] at hrow'
  rw [← hrow'] at hpending hnone
  rcases hsettled with hreceipt | hstatus | hstatus
  · exact hreceipt hnone
  · rw [hstatus] at hpending
    cases hpending
  · rw [hstatus] at hpending
    cases hpending

theorem settled_not_claimed {id : String} {s : ReplyState} (h : Settled orgId id s)
    {input : NewOutboundAttempt} (horg : input.orgId = orgId) (hid : input.clientRequestId = id) :
    (s.attempts.claimOutboundAttempt input).1 = false := by
  obtain ⟨row, hrow, hsettled⟩ := h
  rw [← horg, ← hid] at hrow
  cases hclaimed : (s.attempts.claimOutboundAttempt input).1 with
  | false => rfl
  | true =>
    obtain ⟨hstatus, hnone⟩ := claim_eq_true hclaimed hrow
    rcases hsettled with hreceipt | haccepted | hsent
    · exact absurd hnone hreceipt
    · rw [haccepted] at hstatus
      cases hstatus
    · rw [hsent] at hstatus
      cases hstatus

/-- A settled attempt stays settled: only a replica that recovers it still writes its row,
and a put keeps the receipt. -/
theorem Settled.exec {id : String} {modes : Nat → ReplyMode} {s : ReplyState}
    (hsettled : Settled orgId id s) (h : ReplyInv orgId modes s) (i : Nat) (c : ReplyCall)
    (env : ReplyEnv) (hc : (protocol orgId).allowed (modes i) c) :
    Settled orgId id (c.exec env s).2 := by
  cases c with
  | getOutboundAttempt readOrg id' =>
    exact withFault_state (Settled orgId id) env.fault hsettled hsettled
  | claimOutboundAttempt input =>
    have hclaim : Settled orgId id
        { s with attempts := (s.attempts.claimOutboundAttempt input).2 } := by
      by_cases hid : input.clientRequestId = id
      · rw [claim_eq_false (settled_not_claimed hsettled hc.2 hid)]
        exact hsettled
      · obtain ⟨row, hrow, hevidence⟩ := hsettled
        refine ⟨row, (get?_claim_of_ne ?_).trans hrow, hevidence⟩
        intro heq
        exact hid (Prod.ext_iff.mp heq).2.symm
    exact withFault_state (Settled orgId id) env.fault hsettled hclaim
  | upsertOutboundAttempt input createdAt =>
    have hput : Settled orgId id
        { s with attempts := s.attempts.upsertOutboundAttempt input createdAt } := by
      by_cases hid : input.clientRequestId = id
      · rcases put_cases h i createdAt hc with ⟨_, _, hpending⟩ | ⟨_, row, hrow, hreceipt⟩
        · rw [hid] at hpending
          exact absurd hpending (settled_not_pending hsettled)
        · rw [hid] at hrow
          exact ⟨row, hrow, Or.inl hreceipt⟩
      · obtain ⟨row, hrow, hevidence⟩ := hsettled
        refine ⟨row, (get?_upsert_of_ne ?_).trans hrow, hevidence⟩
        intro heq
        exact hid (Prod.ext_iff.mp heq).2.symm
    exact withFault_state (Settled orgId id) env.fault hsettled hput
  | startSend intent => exact hsettled
  | awaitSend index => exact hsettled
  | outside call => exact hsettled

theorem settled_keeps (id : String) : Pool.Keeps (protocol orgId) (fun _ _ => ReplyMode.ended)
    ReplyCall.exec noFork (fun _ _ _ => True)
    (fun modes s => ReplyInv orgId modes s ∧ Settled orgId id s) where
  answers := fun i c env h hc hcond => reply_keeps.answers i c env h.1 hc hcond
  next := fun i c env h hc _ => ⟨h.1.exec i c env hc, h.2.exec h.1 i c env hc⟩
  follows := fun _ _ _ _ _ _ hfork => nomatch hfork
  start := fun _ _ _ _ _ _ _ _ hfork => nomatch hfork

end Runs

/-- A reply is delivered at most once: whichever replicas serve an id, in any interleaving of
their calls, with any of them stopped anywhere and whatever the channel answers, `send` is
called for the id only after every earlier call for it was refused; and once an attempt is on
record as accepted or sent, no claim of it succeeds again. -/
theorem reply_deliveredOnce (orgId : String) (requests : List ReplyInput)
    (attempts : OutboundAttempts) (events later : List (Nat × ReplyEnv)) :
    Along ReplyPool.step (Pool.Meets OnlyAfterRefusal)
        (ReplyPool.start orgId requests attempts) events ∧
      ∀ clientRequestId row,
        (run ReplyPool.step (ReplyPool.start orgId requests attempts) events).state.attempts.get?
          (orgId, clientRequestId) = some row →
        row.status = .accepted ∨ row.status = .sent →
        ∀ input : NewOutboundAttempt, input.orgId = orgId →
          input.clientRequestId = clientRequestId →
          ((run ReplyPool.step (ReplyPool.start orgId requests attempts)
            (events ++ later)).state.attempts.claimOutboundAttempt input).1 = false := by
  have hfollow : (ReplyPool.start orgId requests attempts).Follow (protocol orgId)
      (fun _ _ _ => True) fun _ => .free := start_follow requests attempts
  have hinv : ReplyInv orgId _ (ReplyPool.start orgId requests attempts).state :=
    start_inv attempts
  have hmeets : ∀ pool events, Along ReplyPool.step (Pool.Meets fun _ _ _ => True) pool events :=
    fun pool events => along_of_forall _ (fun _ _ _ _ => trivial) pool events
  constructor
  · refine reply_keeps.along ?_ (Pool.freeEnds_true _) hfollow hinv events (hmeets _ _)
    intro modes s i c env h hc _ intent heq sent hsent hkey
    rw [heq] at hc
    have hknows := h.knows i
    rw [show modes i = .holding intent.idempotencyKey from hc] at hknows
    obtain ⟨index, hindex⟩ := List.getElem?_of_mem hsent
    exact hknows.2 index sent hindex hkey nofun
  · intro clientRequestId row hrow hstatus input horg hid
    obtain ⟨modes, hfollow', hinv'⟩ := reply_keeps.run (Pool.freeEnds_true _) hfollow hinv events (hmeets _ _)
    have hsettled : Settled orgId clientRequestId
        (run ReplyPool.step (ReplyPool.start orgId requests attempts) events).state :=
      ⟨row, hrow, Or.inr hstatus⟩
    obtain ⟨modes', _, _, hsettled'⟩ :=
      (settled_keeps clientRequestId).run (Pool.freeEnds_true _) hfollow' ⟨hinv', hsettled⟩
        later (hmeets _ _)
    rw [run_append]
    exact settled_not_claimed hsettled' horg hid

/-- Outside components that answer, and a channel that accepts. -/
def willing : ReplyEnv where
  sendOutcome := .ok { accepted := true }
  answer
    | .randomUUID => .ok "r1"
    | .now => .ok "t0"
    | .prepareAttachments _ => .ok []
    | .findForThread thread =>
      .ok (some { installationId := "i1", source := thread.source, canReply := true })
    | .assertOpen _ | .bindEgress _ _ | .conversationStamp _ => .ok ()
    | .getInboxItem _ => .ok (some { channel := "dsh", externalId := "a:1" })
    | .saveReplyRecovery _ => .ok "hash"
    | .loadReplyRecovery _ => .error (.error "no blob")
    | .stopsInstallations => .ok false
    | .findInstallation _ => .ok none
    | .outboundId _ _ => .ok "a:out:1"
    | .ingest _ => .ok { valid := true, eventId := some "e1" }
    | .bindSourceIdentityAliases _ _ => .ok ()

/-- Two replicas get the same request in turns: one sends, the other does not. -/
example :
    let request : ReplyInput :=
      { threadId := some "dsh:a", text := some "hi", clientRequestId := some "r1" }
    let pool := run ReplyPool.step (ReplyPool.start "o1" [request, request] ∅)
      ((List.replicate 24 [(0, willing), (1, willing)]).flatten)
    pool.state.sends.length = 1 ∧
      pool.state.attempts.rows.map (fun row => row.status) = [.sent] := by decide +kernel

end Regenic.Reply
