import Regenic.Feishu.LiveWalk

/-!
When the live walk leaves no gap: every time of a cursor is a second below which all messages are
returned, unless a newest page moved it past some.
-/

namespace Regenic.Feishu

open Lib Ingest
open Customer (nonBlank)

/-! ## Times -/

theorem toString_ne_empty (n : Nat) : toString n ≠ "" := by
  intro hempty
  have hlist := congrArg String.toList hempty
  have hdigits : (toString n).toList = Nat.toDigits 10 n := Nat.toList_repr
  rw [hdigits] at hlist
  exact Nat.toDigits_ne_nil hlist

theorem digit_not_space {c : Char} (h : c.isDigit = true) : isJsSpace c = false := by
  simp only [Char.isDigit, ge_iff_le, Bool.and_eq_true, decide_eq_true_eq] at h
  obtain ⟨hlow, hhigh⟩ := h
  have hlow : 48 ≤ c.toNat := hlow
  have hhigh : c.toNat ≤ 57 := hhigh
  simp only [isJsSpace, Bool.or_eq_false_iff, Bool.and_eq_false_iff, decide_eq_false_iff_not,
    beq_eq_false_iff_ne]
  omega

theorem nonBlank_toString (n : Nat) : nonBlank (toString n) = true := by
  have hdigits : (toString n).toList = Nat.toDigits 10 n := Nat.toList_repr
  have hdigit : ∀ c ∈ Nat.toDigits 10 n, isJsSpace c = false := fun c hc =>
    digit_not_space (Nat.isDigit_of_mem_toDigits (by omega) (by omega) hc)
  have hdrop : ∀ cs : List Char, (∀ c ∈ cs, isJsSpace c = false) →
      cs.dropWhile isJsSpace = cs := by
    intro cs hcs
    cases cs with
    | nil => rfl
    | cons c rest =>
      rw [List.dropWhile_cons_of_neg (by simp [hcs c List.mem_cons_self])]
  apply decide_eq_true
  intro hempty
  have hlist := congrArg String.toList hempty
  rw [jsTrim, String.toList_ofList, trimChars, hdigits, hdrop _ hdigit, hdrop _ (by
    intro c hc
    exact hdigit c (List.mem_reverse.mp hc)), List.reverse_reverse] at hlist
  exact Nat.toDigits_ne_nil hlist

section Times

variable {number : JsNumber}

/-- A text of a whole number reads as it. -/
theorem second_inj (m other : ChatMessage number) (h : m.item = other.item) :
    m.second = other.second := by
  have htext : toString m.second = toString other.second :=
    Option.some.inj (m.reads.symm.trans (h ▸ other.reads))
  have hread := number.read_nat m.second m.small
  rw [htext, number.read_nat other.second other.small] at hread
  exact_mod_cast (Option.some.inj hread).symm

theorem laterTime_mem (left right : Option String) :
    laterTime number left right = left ∨ laterTime number left right = right := by
  unfold laterTime
  cases hleft : present left with
  | none => exact .inr rfl
  | some l =>
    cases hright : present right with
    | none => exact .inl rfl
    | some r =>
      by_cases hlater : number.atLeast l r = true
      · exact .inl (if_pos hlater)
      · exact .inr (if_neg hlater)

/-- The later of two times is there where one of them is. -/
theorem present_laterTime {left right : Option String} (h : (present left).isSome) :
    (present (laterTime number left right)).isSome := by
  unfold laterTime
  cases hleft : present left with
  | none => exact absurd h (by simp [hleft])
  | some l =>
    cases hright : present right with
    | none => simp [hleft]
    | some r => by_cases hlater : number.atLeast l r = true <;> simp [hlater, hleft, hright]

variable (told : ChatMessage number → Prop) (chat : List (ChatMessage number))

/-- A time that, where it is there, is a second of the chat below which everything is told. -/
def GoodTime (time : Option String) : Prop :=
  ∀ text, time = some text → ∃ n : Nat, text = toString n ∧ n ≤ 2 ^ 53 ∧
    ToldBelow ChatMessage.second told chat n ∧ ∃ m ∈ chat, n ≤ m.second

variable {told chat}

theorem goodTime_none : GoodTime told chat none := fun _ h => nomatch h

theorem GoodTime.laterTime {left right : Option String} (hleft : GoodTime told chat left)
    (hright : GoodTime told chat right) : GoodTime told chat (laterTime number left right) := by
  rcases @laterTime_mem number left right with h | h
  · rw [h]
    exact hleft
  · rw [h]
    exact hright

theorem GoodTime.filter {time : Option String} (h : GoodTime told chat time)
    (p : String → Bool) : GoodTime told chat (time.filter p) :=
  fun text htext => h text (Option.filter_eq_some_iff.mp htext).1

theorem GoodTime.present {time : Option String} (h : GoodTime told chat time) :
    GoodTime told chat (present time) :=
  h.filter _

theorem GoodTime.orElse {time time' : Option String} (h : GoodTime told chat time)
    (h' : GoodTime told chat time') : GoodTime told chat (time <|> time') := by
  cases time with
  | none => exact h'
  | some text => exact h

theorem GoodTime.ne_empty {text : String} (h : GoodTime told chat (some text)) : text ≠ "" := by
  obtain ⟨n, rfl, -⟩ := h text rfl
  exact toString_ne_empty n

theorem GoodTime.isSome {time : Option String} (h : GoodTime told chat time)
    (hsome : time.isSome) : (Lib.present time).isSome := by
  obtain ⟨text, rfl⟩ := Option.isSome_iff_exists.mp hsome
  rw [present_some.mpr ⟨rfl, h.ne_empty⟩]
  rfl

theorem GoodTime.mono {told' : ChatMessage number → Prop} {time : Option String}
    (h : GoodTime told chat time) (hmono : ∀ m, told m → told' m) : GoodTime told' chat time := by
  intro text htext
  obtain ⟨n, hn, hsmall, hbelow, hmem⟩ := h text htext
  exact ⟨n, hn, hsmall, hbelow.mono hmono, hmem⟩

theorem GoodTime.append {time : Option String} {more : List (ChatMessage number)}
    (h : GoodTime told chat time) (horder : InRankOrder ChatMessage.second (chat ++ more)) :
    GoodTime told (chat ++ more) time := by
  intro text htext
  obtain ⟨n, hn, hsmall, hbelow, m, hm, hle⟩ := h text htext
  exact ⟨n, hn, hsmall, hbelow.append horder hm hle, m, List.mem_append_left _ hm, hle⟩

/-- The second of a message below which everything is told. -/
theorem goodTime_message {m : ChatMessage number} (hm : m ∈ chat)
    (hbelow : ToldBelow ChatMessage.second told chat m.second) :
    GoodTime told chat (feishuCreateTimeToStartSeconds number m.item.createTime) := by
  rw [m.reads]
  intro text htext
  cases htext
  exact ⟨m.second, rfl, m.small, hbelow, m, hm, le_rfl⟩

/-! ### The times of a page -/

variable {listed : List (ChatMessage number)} {items : List FeishuHistoryItem}

theorem goodTime_newest (hitems : items = listed.map (·.item)) (hlisted : ∀ m ∈ listed,
      m ∈ chat ∧ ToldBelow ChatMessage.second told chat m.second) :
    GoodTime told chat (newestStartTime number items) := by
  subst hitems
  unfold newestStartTime
  rw [List.foldl_map]
  generalize hstart : (none : Option String) = newest
  have hnewest : GoodTime told chat newest := hstart ▸ goodTime_none
  clear hstart
  induction listed generalizing newest with
  | nil => exact hnewest
  | cons m rest ih =>
    obtain ⟨hm, hbelow⟩ := hlisted m List.mem_cons_self
    apply ih (fun m' hm' => hlisted m' (List.mem_cons_of_mem m hm'))
    exact hnewest.laterTime (goodTime_message hm hbelow)

theorem goodTime_last (hitems : items = listed.map (·.item)) (hlisted : ∀ m ∈ listed,
      m ∈ chat ∧ ToldBelow ChatMessage.second told chat m.second) :
    GoodTime told chat (lastStartTime number items) := by
  subst hitems
  intro text htext
  obtain ⟨item, hitem, hsome⟩ := List.exists_of_findSome?_eq_some htext
  obtain ⟨m, hm, rfl⟩ := List.mem_map.mp (List.mem_reverse.mp hitem)
  obtain ⟨hmem, hbelow⟩ := hlisted m hm
  exact (goodTime_message hmem hbelow).present text hsome

theorem newest_isSome (hitems : items = listed.map (·.item)) (hne : items ≠ []) :
    (present (newestStartTime number items)).isSome := by
  subst hitems
  obtain ⟨m, rest, rfl⟩ := List.exists_cons_of_ne_nil fun hnil : listed = [] => hne (hnil ▸ rfl)
  have hfirst : (present (laterTime number none
      (feishuCreateTimeToStartSeconds number m.item.createTime))).isSome := by
    rw [m.reads]
    change (present (some (toString m.second))).isSome
    rw [present_some.mpr ⟨rfl, toString_ne_empty m.second⟩]
    rfl
  unfold newestStartTime
  rw [List.map_cons, List.foldl_cons]
  generalize laterTime number none
    (feishuCreateTimeToStartSeconds number m.item.createTime) = newest at hfirst ⊢
  clear hne
  induction rest generalizing newest with
  | nil => exact hfirst
  | cons m' rest ih => exact ih _ (present_laterTime hfirst)

end Times

/-! ## The cursor -/

section Cursor

variable {number : JsNumber}

/-- What holds of the cursor of a seeded walk: its times are good, and what comes before the
position of its token is told. -/
structure WalkState (position : String → Nat) (told : ChatMessage number → Prop)
    (chat : List (ChatMessage number)) (started : Prop) (state : FeishuCursorState) : Prop where
  recentSeeded : state.recentSeeded = true
  sort : state.sort = none
  historyBefore : state.historyBefore = none
  start : GoodTime told chat state.startTime
  head : GoodTime told chat state.headTime
  started : started → state.startTime.isSome
  token : ∀ token, state.pageToken = some token →
    position token ≤ chat.length ∧ ToldPrefix told chat (position token)

variable {position : String → Nat} {told told' : ChatMessage number → Prop}
  {chat more : List (ChatMessage number)} {started : Prop} {state : FeishuCursorState}

theorem WalkState.append (h : WalkState position told chat started state)
    (horder : InRankOrder ChatMessage.second (chat ++ more)) :
    WalkState position told (chat ++ more) started state where
  recentSeeded := h.recentSeeded
  sort := h.sort
  historyBefore := h.historyBefore
  start := h.start.append horder
  head := h.head.append horder
  started := h.started
  token token htoken := by
    obtain ⟨hle, htold⟩ := h.token token htoken
    refine ⟨?_, htold.append hle⟩
    rw [List.length_append]
    omega

theorem WalkState.mono (h : WalkState position told chat started state)
    (hmono : ∀ m, told m → told' m) : WalkState position told' chat started state where
  recentSeeded := h.recentSeeded
  sort := h.sort
  historyBefore := h.historyBefore
  start := h.start.mono hmono
  head := h.head.mono hmono
  started := h.started
  token token htoken := by
    obtain ⟨hle, htold⟩ := h.token token htoken
    exact ⟨hle, htold.mono hmono⟩

/-- A cursor that is written and read again stands for the same walk. -/
theorem WalkState.reread (h : WalkState position told chat started state) :
    WalkState position told chat started state.reread where
  recentSeeded := h.recentSeeded
  sort := rfl
  historyBefore := by
    rw [FeishuCursorState.reread, h.historyBefore]
    rfl
  start := h.start.filter _
  head := by
    refine GoodTime.filter ?_ _
    unfold FeishuCursorState.writtenHead
    split
    · exact h.head
    · exact goodTime_none
  started hstarted := by
    obtain ⟨text, htext⟩ := Option.isSome_iff_exists.mp (h.started hstarted)
    obtain ⟨n, rfl, -⟩ := h.start text htext
    rw [FeishuCursorState.reread, htext, Option.filter_some, if_pos (nonBlank_toString n)]
    rfl
  token token htoken := h.token token (Option.filter_eq_some_iff.mp htoken).1

theorem WalkState.liveStart (h : WalkState position told chat started state) :
    GoodTime told chat (liveStart number state) :=
  h.head.laterTime h.start

/-- What the walk hands over to the next page is what the page makes of it. -/
theorem retainHistoryBefore_none (h : state.historyBefore = none) (next : FeishuCursorState) :
    retainHistoryBefore state next = next := by
  rw [retainHistoryBefore, h]
  rfl

/-! ### Pages -/

section Pages

variable {page : FeishuHistoryPage} {listed : List (ChatMessage number)}

/-- A newest page seeds the walk: the messages of earlier seconds that follow it are on it. -/
theorem seeded_walk (hitems : page.items = listed.map (·.item))
    (hlisted : ∀ m ∈ listed, m ∈ chat ∧ ToldBelow ChatMessage.second told chat m.second) :
    WalkState position told chat (page.items ≠ []) (seededCursor number {} page) := by
  have hhead : GoodTime told chat
      (present (laterTime number none (newestStartTime number page.items))) :=
    (goodTime_none.laterTime (goodTime_newest hitems hlisted)).present
  have hstarted : page.items ≠ [] →
      (present (laterTime number none (newestStartTime number page.items))).isSome :=
    fun hne => newest_isSome hitems hne
  unfold seededCursor
  cases page.nextToken with
  | none =>
    exact ⟨rfl, rfl, rfl, hhead, goodTime_none, hstarted, fun _ h => nomatch h⟩
  | some token =>
    exact ⟨rfl, rfl, rfl, hhead, hhead, hstarted, fun _ h => nomatch h⟩

/-- An ascending page that goes on from a position. -/
theorem ascending_walk (h : WalkState position told chat started state)
    (hitems : page.items = listed.map (·.item))
    (hlisted : ∀ m ∈ listed, m ∈ chat ∧ ToldBelow ChatMessage.second told chat m.second)
    (htoken : ∀ token, page.nextToken = some token →
      position token ≤ chat.length ∧ ToldPrefix told chat (position token)) :
    WalkState position told chat started (ascendingCursor number state page) := by
  have hnewest : GoodTime told chat (newestStartTime number page.items) :=
    goodTime_newest hitems hlisted
  have hlast : GoodTime told chat (lastStartTime number page.items <|> state.startTime) :=
    (goodTime_last hitems hlisted).orElse h.start
  have hlastSome : started →
      (present (lastStartTime number page.items <|> state.startTime)).isSome := by
    intro hstarted
    apply hlast.isSome
    cases lastStartTime number page.items with
    | none => exact h.started hstarted
    | some text => rfl
  unfold ascendingCursor
  cases hnext : page.nextToken with
  | none =>
    refine ⟨rfl, rfl, rfl, (hlast.laterTime h.head).present, goodTime_none, ?_,
      fun _ h => nomatch h⟩
    exact fun hstarted => present_laterTime (hlastSome hstarted)
  | some token =>
    refine ⟨rfl, rfl, rfl, hlast.present, ?_, hlastSome, ?_⟩
    · dsimp only
      split
      · exact goodTime_none
      · exact (h.head.laterTime hnewest).present
    · intro token' htoken'
      exact htoken token' (hnext.trans htoken')

/-- A newest page keeps the history token where there are older messages. -/
theorem descendingCursor_newest (number : JsNumber) (state : FeishuCursorState)
    (page : FeishuHistoryPage) :
    descendingCursor number state page false =
      if page.hasMore = true ∧ (present (deferredHistoryToken state)).isSome = true then
        { startTime := present (state.startTime <|> state.headTime <|>
            laterTime number state.headTime (newestStartTime number page.items))
          headTime := laterTime number state.headTime
            (laterTime number state.headTime (newestStartTime number page.items))
          historyToken := present (deferredHistoryToken state)
          recentSeeded := true }
      else
        { startTime := present (state.startTime <|> state.headTime <|>
            laterTime number state.headTime (newestStartTime number page.items))
          recentSeeded := true } := by
  cases hmore : page.hasMore <;>
    cases hhistory : present (deferredHistoryToken state) <;>
      simp [descendingCursor, hmore, hhistory]

/-- A newest page of a seeded walk. Its newest second becomes the head where the history walk
goes on, and the start where there is none. -/
theorem newest_walk (h : WalkState position told chat started state)
    (hmoves : page.hasMore = true → (present (deferredHistoryToken state)).isSome →
      GoodTime told chat (newestStartTime number page.items))
    (hempty : ¬started → GoodTime told chat (newestStartTime number page.items)) :
    WalkState position told chat started (descendingCursor number state page false) := by
  have hhead : GoodTime told chat (newestStartTime number page.items) → GoodTime told chat
      (laterTime number state.headTime (newestStartTime number page.items)) :=
    fun hnewest => h.head.laterTime hnewest
  have hlive : GoodTime told chat (present (state.startTime <|> state.headTime <|>
      laterTime number state.headTime (newestStartTime number page.items))) := by
    by_cases hstarted : started
    · obtain ⟨text, htext⟩ := Option.isSome_iff_exists.mp (h.started hstarted)
      rw [htext]
      exact (htext ▸ h.start : GoodTime told chat (some text)).present
    · exact (h.start.orElse (h.head.orElse (hhead (hempty hstarted)))).present
  have hliveSome : started → (present (state.startTime <|> state.headTime <|>
      laterTime number state.headTime (newestStartTime number page.items))).isSome := by
    intro hstarted
    obtain ⟨text, htext⟩ := Option.isSome_iff_exists.mp (h.started hstarted)
    have hgood : GoodTime told chat (some text) := htext ▸ h.start
    rw [htext]
    exact hgood.isSome rfl
  rw [descendingCursor_newest]
  split
  · next hhistory =>
    exact ⟨rfl, rfl, rfl, hlive, h.head.laterTime (hhead (hmoves hhistory.1 hhistory.2)),
      hliveSome, fun _ h => nomatch h⟩
  · exact ⟨rfl, rfl, rfl, hlive, goodTime_none, hliveSome, fun _ h => nomatch h⟩

end Pages

end Cursor

/-! ## One poll -/

section Poll

variable {env : FeishuEnv} {options : FeishuChatPollConnectorOptions}
  {state : FeishuCursorState}

theorem storedBound_none {number : JsNumber} (h : state.historyBefore = none) :
    feishuStoredHistoryBound number state = none := by
  unfold feishuStoredHistoryBound
  split
  · rfl
  · rw [h]
    dsimp only [Option.map_none, Option.getD_none]
    split
    · rfl
    · exact if_pos (.inl rfl)

theorem pollRequest_latest {e : LivePoll env.number} (h : state.historyBefore = none)
    (hlatest : e.latest = true) :
    pollRequest env options state e.poll = .latest {
      chatId := options.chatId
      pageSize := options.pageSize
      sortType := .byCreateTimeDesc
      timeoutMs := some 8000 } := by
  have hanchor : feishuHistoryAnchor env.number env.dateParse e.poll = none := rfl
  have htip : interactiveTip e.poll = true := by simp [interactiveTip, LivePoll.poll, hlatest]
  unfold pollRequest
  rw [hanchor, storedBound_none h]
  dsimp only
  rw [if_pos htip]

theorem pollRequest_plain {e : LivePoll env.number} (h : state.historyBefore = none)
    (hlatest : e.latest = false) {input : FeishuListInput}
    (hplan : planFeishuHistoryRequest env.number options.chatId options.pageSize state false =
      some input) :
    pollRequest env options state e.poll = .planned input := by
  have hanchor : feishuHistoryAnchor env.number env.dateParse e.poll = none := rfl
  have htip : interactiveTip e.poll = false := by simp [interactiveTip, LivePoll.poll, hlatest]
  have holder : e.poll.older = false := rfl
  unfold pollRequest
  rw [hanchor, storedBound_none h]
  dsimp only
  rw [if_neg (by simp [htip]), holder, hplan]

/-- A seeded walk goes on at its token, else at its live start. -/
theorem plan_live {number : JsNumber} {chatId : String} {pageSize : Nat}
    (hseeded : state.recentSeeded = true) (hsort : state.sort = none) :
    ∃ input, planFeishuHistoryRequest number chatId pageSize state false = some input ∧
      input.sortType = .byCreateTimeAsc ∧ present input.pageToken = present state.pageToken ∧
      (present state.pageToken = none → input.startTime = liveStart number state) := by
  have hneeds : needsRecentSeed state = false := by simp [needsRecentSeed, hseeded]
  unfold planFeishuHistoryRequest
  rw [hneeds, hseeded, hsort]
  simp only [Bool.false_eq_true, if_false, Bool.true_and]
  cases htoken : present state.pageToken with
  | none => exact ⟨_, rfl, rfl, rfl, fun _ => rfl⟩
  | some token => exact ⟨_, rfl, rfl, htoken, fun h => nomatch h⟩

/-- The request of a poll before the walk is seeded is for the newest page. -/
theorem request_seed (e : LivePoll env.number) :
    ∃ input, input.sortType = .byCreateTimeDesc ∧ present input.pageToken = none ∧
      present input.endTime = none ∧
      fetchPage env options e.answers (pollRequest env options {} e.poll) =
        e.answers.listMessages input ∧
      (pollRequest env options {} e.poll).isNothing = false ∧
      ∀ page, nextState env {} (pollRequest env options {} e.poll) page =
        seededCursor env.number {} page := by
  cases hlatest : e.latest with
  | true =>
    rw [pollRequest_latest rfl hlatest]
    exact ⟨_, rfl, rfl, rfl, rfl, rfl, fun _ => rfl⟩
  | false =>
    rw [pollRequest_plain rfl hlatest rfl]
    exact ⟨_, rfl, rfl, rfl, rfl, rfl, fun _ => rfl⟩

/-- A latest poll of a seeded walk asks for the newest page. -/
theorem request_newest {e : LivePoll env.number} (hlatest : e.latest = true)
    (hseeded : state.recentSeeded = true) (hbefore : state.historyBefore = none) :
    ∃ input, input.sortType = .byCreateTimeDesc ∧ present input.pageToken = none ∧
      present input.endTime = none ∧
      fetchPage env options e.answers (pollRequest env options state e.poll) =
        e.answers.listMessages input ∧
      (pollRequest env options state e.poll).isNothing = false ∧
      ∀ page, nextState env state (pollRequest env options state e.poll) page =
        descendingCursor env.number state page false := by
  have hneeds : needsRecentSeed state = false := by simp [needsRecentSeed, hseeded]
  rw [pollRequest_latest hbefore hlatest]
  refine ⟨_, rfl, rfl, rfl, rfl, rfl, fun page => ?_⟩
  dsimp only [nextState]
  rw [retainHistoryBefore_none hbefore, nextFeishuCursor, hneeds]
  exact if_neg Bool.false_ne_true

/-- A plain poll of a seeded walk asks for the next ascending page. -/
theorem request_ascending {e : LivePoll env.number} (hlatest : e.latest = false)
    (hseeded : state.recentSeeded = true) (hsort : state.sort = none)
    (hbefore : state.historyBefore = none) :
    ∃ input, input.sortType = .byCreateTimeAsc ∧
      present input.pageToken = present state.pageToken ∧
      (present state.pageToken = none → input.startTime = liveStart env.number state) ∧
      fetchPage env options e.answers (pollRequest env options state e.poll) =
        e.answers.listMessages input ∧
      (pollRequest env options state e.poll).isNothing = false ∧
      ∀ page, nextState env state (pollRequest env options state e.poll) page =
        ascendingCursor env.number state page := by
  obtain ⟨input, hplan, hinput, htoken, hstart⟩ := @plan_live state env.number options.chatId
    options.pageSize hseeded hsort
  rw [pollRequest_plain hbefore hlatest hplan]
  refine ⟨input, hinput, htoken, hstart, rfl, rfl, fun page => ?_⟩
  dsimp only [nextState]
  rw [retainHistoryBefore_none hbefore, hinput]
  rfl

variable {s : LiveRun env.number} {e : LivePoll env.number}

/-- What a poll does: it throws, it downloads only, or it lists a page. -/
theorem LivePoll.step_cases
    (hrequest : (pollRequest env options (s.state env) e.poll).isNothing = false) :
    e.step env options s = { s with chat := s.chat ++ e.arrived } ∨
      e.step env options s = { s with
        chat := s.chat ++ e.arrived
        cursor := encodeFeishuCursor (s.state env) } ∨
      ∃ page, e.page env options s = some page ∧
        fetchPage env options e.answers (pollRequest env options (s.state env) e.poll) =
          some page ∧
        e.step env options s = {
          chat := s.chat ++ e.arrived
          cursor := encodeFeishuCursor
            (nextState env (s.state env) (pollRequest env options (s.state env) e.poll) page)
          returned := s.returned ++ page.items
          seeding := s.seeding <|> some ⟨s.chat ++ e.arrived, page.items⟩ } := by
  unfold LivePoll.step
  cases hpoll : pollInSlot env options e.answers s.cursor e.poll e.jobs with
  | none => exact .inl rfl
  | some outcome =>
    obtain ⟨prepared, hprepared, hresult⟩ := Option.bind_eq_some_iff.mp hpoll
    cases hresult
    refine .inr ?_
    have hwritten : ∀ result, e.writtenCursor env s result = result.nextCursor := fun _ => rfl
    dsimp only
    rw [hwritten]
    unfold preparePoll at hprepared
    dsimp only at hprepared
    by_cases hmedia : e.poll.media = some true
    · rw [if_pos hmedia] at hprepared
      cases hprepared
      have hpage : e.page env options s = none := if_pos hmedia
      refine .inl ?_
      have hnone : (s.seeding <|> (none : Option (Seeding env.number))) = s.seeding := by
        cases s.seeding <;> rfl
      rw [hpage]
      simp only [Option.map_none, Option.getD_none, List.append_nil, hnone]
      rfl
    · have hstate : { decodeFeishuCursor env.number s.cursor with mediaJobs := [] } =
          s.state env := rfl
      rw [if_neg hmedia, hstate, hrequest, Bool.false_and, if_neg Bool.false_ne_true]
        at hprepared
      obtain ⟨page, hfetch, hprepared⟩ := Option.bind_eq_some_iff.mp hprepared
      obtain ⟨names, -, hprepared⟩ := Option.bind_eq_some_iff.mp hprepared
      cases hprepared
      have hpage : e.page env options s = some page := (if_neg hmedia).trans hfetch
      refine .inr ⟨page, hpage, hfetch, ?_⟩
      rw [hpage]
      rfl

end Poll

/-! ### What a page tells -/

section Pages

variable {number : JsNumber} {position : String → Nat} {chat : List (ChatMessage number)}
  {input : FeishuListInput} {page : FeishuHistoryPage} {seeding : Seeding number}
  {returned : List FeishuHistoryItem}

/-- A newest page holds what ranks above one of its messages. -/
theorem newest_holds (horder : InRankOrder ChatMessage.second chat) {count : Nat}
    (hitems : page.items = (chat.reverse.take count).map (·.item))
    {first m : ChatMessage number} (hfirst : first.item ∈ page.items) (hm : m ∈ chat)
    (hsecond : first.second < m.second) : m.item ∈ page.items := by
  rw [hitems] at hfirst ⊢
  obtain ⟨listed, hlisted, hsame⟩ := List.mem_map.mp hfirst
  rw [← second_inj listed first hsame] at hsecond
  have hdrop := horder.mem_drop (mem_newest.mp hlisted) hm hsecond
  exact List.mem_map.mpr ⟨m, mem_newest.mpr hdrop, rfl⟩

/-- Once the chat is seeded, everything that the walk answers for is returned. -/
theorem seeding_told (horder : InRankOrder ChatMessage.second chat) {count : Nat}
    (hitems : page.items = (chat.reverse.take count).map (·.item))
    (hreturned : ∀ item ∈ page.items, item ∈ returned) {m : ChatMessage number} (hm : m ∈ chat) :
    (Seeding.mk chat page.items).Told returned m := by
  rintro ⟨first, hfirst, hlisted, hlater | ⟨hsame, hwhole⟩⟩
  · exact hreturned _ (newest_holds horder hitems hlisted hm hlater)
  · exact hreturned _ (hwhole m hm first hfirst hlisted hsame.symm)

/-- The position that an ascending list starts at comes after what is told. -/
theorem listStart_told {told : ChatMessage number → Prop} {started : Prop}
    {state : FeishuCursorState} (h : WalkState position told chat started state)
    (htoken : present input.pageToken = present state.pageToken)
    (hstart : present state.pageToken = none → input.startTime = liveStart number state) :
    listStart position chat input ≤ chat.length ∧
      ToldPrefix told chat (listStart position chat input) := by
  unfold listStart
  rw [htoken]
  cases hpresent : present state.pageToken with
  | some token => exact h.token token (present_some.mp hpresent).1
  | none =>
    dsimp only
    refine ⟨(List.takeWhile_prefix _).length_le, ?_⟩
    rw [hstart hpresent]
    cases hlive : liveStart number state with
    | none =>
      -- Without a start time the list starts with the chat.
      have hnone : ToldBelow ChatMessage.second told chat 0 :=
        fun _ _ hrank => absurd hrank (Nat.not_lt_zero _)
      refine hnone.takeWhile fun m hm => ?_
      have hlt : (m.second : ℚ) < ((0 : ℕ) : ℚ) := of_decide_eq_true hm
      exact_mod_cast hlt
    | some text =>
      obtain ⟨n, rfl, hsmall, hbelow, -⟩ := h.liveStart text hlive
      refine hbelow.takeWhile fun m hm => ?_
      rw [Option.bind_some, number.read_nat n hsmall] at hm
      have hlt : (m.second : ℚ) < (n : ℚ) := of_decide_eq_true hm
      exact_mod_cast hlt

end Pages

/-! ### The invariant -/

/-- A chat that is not seeded has no cursor, and one that is has a good one. -/
structure LiveRun.Walked (env : FeishuEnv) (position : String → Nat) (s : LiveRun env.number) :
    Prop where
  inOrder : InRankOrder ChatMessage.second s.chat
  unseeded : s.seeding = none → s.cursor = none
  seeded : ∀ seeding, s.seeding = some seeding →
    WalkState position (seeding.Told s.returned) s.chat (seeding.items ≠ []) (s.state env)

theorem walked_start (env : FeishuEnv) (position : String → Nat) :
    ({} : LiveRun env.number).Walked env position where
  inOrder := List.Pairwise.nil
  unseeded _ := rfl
  seeded _ h := nomatch h

section Invariant

variable {env : FeishuEnv} {options : FeishuChatPollConnectorOptions}
  {position : String → Nat} {s : LiveRun env.number} {e : LivePoll env.number}

/-- The state of a run whose cursor was written. -/
theorem state_written {state : FeishuCursorState} (hsort : state.sort = none)
    (chat : List (ChatMessage env.number)) (returned : List FeishuHistoryItem)
    (seeding : Option (Seeding env.number)) :
    (LiveRun.mk chat (encodeFeishuCursor state) returned seeding).state env = state.reread := by
  have hasc : state.sort ≠ some .desc := by
    rw [hsort]
    exact fun h => nomatch h
  unfold LiveRun.state
  rw [decode_encode state hasc]
  rfl

theorem told_mono {number : JsNumber} {seeding : Seeding number}
    {returned more : List FeishuHistoryItem} (m : ChatMessage number)
    (h : seeding.Told returned m) : seeding.Told (returned ++ more) m :=
  fun hprecedes => List.mem_append_left _ (h hprecedes)

/-- The page that a chat is seeded with. -/
theorem walked_seed (hfits : e.Fits env s position) {page : FeishuHistoryPage}
    (hstate : s.state env = {})
    (hfetch : fetchPage env options e.answers (pollRequest env options (s.state env) e.poll) =
      some page) :
    WalkState position
      ((Seeding.mk (s.chat ++ e.arrived) page.items).Told (s.returned ++ page.items))
      (s.chat ++ e.arrived) (page.items ≠ [])
      (nextState env (s.state env) (pollRequest env options (s.state env) e.poll) page) := by
  rw [hstate] at hfetch ⊢
  obtain ⟨input, hsort, htoken, hend, hlist, -, hnext⟩ := @request_seed env options e
  obtain ⟨count, hitems, -⟩ :=
    (hfits.lists input page (hlist.symm.trans hfetch)).descending hsort htoken hend
  rw [hnext]
  refine seeded_walk hitems fun m hm => ⟨List.mem_reverse.mp (List.mem_of_mem_take hm), ?_⟩
  exact fun b hb _ => seeding_told hfits.inOrder hitems
    (fun _ hitem => List.mem_append_right _ hitem) hb

/-- A page of a seeded walk. -/
theorem walked_page (hfits : e.Fits env s position) (hreaches : e.Reaches env s options)
    {seeding : Seeding env.number} (hseeding : s.seeding = some seeding)
    (h : WalkState position (seeding.Told s.returned) s.chat (seeding.items ≠ []) (s.state env))
    {page : FeishuHistoryPage} (hpage : e.page env options s = some page)
    (hfetch : fetchPage env options e.answers (pollRequest env options (s.state env) e.poll) =
      some page) :
    WalkState position (seeding.Told (s.returned ++ page.items)) (s.chat ++ e.arrived)
      (seeding.items ≠ [])
      (nextState env (s.state env) (pollRequest env options (s.state env) e.poll) page) := by
  have hwalk := (h.append hfits.inOrder).mono (@told_mono _ seeding s.returned page.items)
  cases hlatest : e.latest with
  | true =>
    obtain ⟨input, hsort, htoken, hend, hlist, -, hnext⟩ :=
      @request_newest env options (s.state env) e hlatest h.recentSeeded h.historyBefore
    obtain ⟨count, hitems, -⟩ :=
      (hfits.lists input page (hlist.symm.trans hfetch)).descending hsort htoken hend
    have hmem : ∀ m ∈ (s.chat ++ e.arrived).reverse.take count, m ∈ s.chat ++ e.arrived :=
      fun m hm => List.mem_reverse.mp (List.mem_of_mem_take hm)
    rw [hnext]
    refine newest_walk hwalk ?_ ?_
    · intro hmore hhistory
      refine goodTime_newest hitems fun m hm => ⟨hmem m hm, fun b hb hrank hprecedes => ?_⟩
      rcases hreaches hlatest page hpage hmore hhistory seeding hseeding b hb hprecedes with
        hold | hlisted | hnewest
      · exact List.mem_append_left _ hold
      · exact List.mem_append_right _ hlisted
      · exact absurd (hnewest m (hmem m hm)) (Nat.not_le_of_lt hrank)
    · intro hempty
      refine goodTime_newest hitems fun m hm => ⟨hmem m hm, fun b _ _ hprecedes => ?_⟩
      obtain ⟨first, -, hlisted, -⟩ := hprecedes
      rw [not_not] at hempty
      rw [hempty] at hlisted
      cases hlisted
  | false =>
    obtain ⟨input, hsort, htoken, hstart, hlist, -, hnext⟩ :=
      @request_ascending env options (s.state env) e hlatest h.recentSeeded h.sort
        h.historyBefore
    obtain ⟨count, hitems, -, hposition⟩ :=
      (hfits.lists input page (hlist.symm.trans hfetch)).ascending hsort
    obtain ⟨hle, hbefore⟩ := listStart_told hwalk htoken hstart
    have hpageTold : ToldPrefix (seeding.Told (s.returned ++ page.items)) (s.chat ++ e.arrived)
        (listStart position (s.chat ++ e.arrived) input + count) := by
      refine hbefore.page fun m hm _ => List.mem_append_right _ ?_
      rw [hitems]
      exact List.mem_map.mpr ⟨m, hm, rfl⟩
    have hlength : page.items.length ≤ count ∧ listStart position (s.chat ++ e.arrived) input +
        page.items.length ≤ (s.chat ++ e.arrived).length := by
      rw [hitems, List.length_map, List.length_take, List.length_drop]
      omega
    rw [hnext]
    refine ascending_walk hwalk hitems ?_ ?_
    · intro m hm
      have htake : m ∈ (s.chat ++ e.arrived).take
          (listStart position (s.chat ++ e.arrived) input + count) := by
        rw [List.take_add]
        exact List.mem_append_right _ hm
      exact ⟨List.mem_of_mem_take htake, hpageTold.below hfits.inOrder htake⟩
    · intro token htokenNext
      rw [hposition token htokenNext]
      exact ⟨hlength.2, hpageTold.le (by omega)⟩

theorem walked_step (h : s.Walked env position) (hfits : e.Fits env s position)
    (hreaches : e.Reaches env s options) : (e.step env options s).Walked env position := by
  cases hseeding : s.seeding with
  | none =>
    have hcursor := h.unseeded hseeding
    have hstate : s.state env = {} := by
      unfold LiveRun.state
      rw [hcursor]
      rfl
    obtain ⟨input, -, -, -, -, hnothing, -⟩ := @request_seed env options e
    rw [← hstate] at hnothing
    rcases LivePoll.step_cases hnothing with hstep | hstep | ⟨page, -, hfetch, hstep⟩
    · rw [hstep]
      refine ⟨hfits.inOrder, fun _ => hcursor, fun seeding hsome => ?_⟩
      exact absurd (hseeding.symm.trans hsome) (fun h => nomatch h)
    · rw [hstep, hstate]
      refine ⟨hfits.inOrder, fun _ => rfl, fun seeding hsome => ?_⟩
      exact absurd (hseeding.symm.trans hsome) (fun h => nomatch h)
    · have hwalk := walked_seed hfits hstate hfetch
      rw [hstep, hseeding]
      refine ⟨hfits.inOrder, (fun hnone => nomatch hnone), ?_⟩
      rintro seeding ⟨⟩
      rw [state_written hwalk.sort]
      exact hwalk.reread
  | some seeding =>
    have hwalk := h.seeded seeding hseeding
    have hnothing : (pollRequest env options (s.state env) e.poll).isNothing = false := by
      cases hlatest : e.latest with
      | true =>
        obtain ⟨_, -, -, -, -, hnothing, -⟩ :=
          @request_newest env options _ e hlatest hwalk.recentSeeded hwalk.historyBefore
        exact hnothing
      | false =>
        obtain ⟨_, -, -, -, -, hnothing, -⟩ :=
          @request_ascending env options _ e hlatest hwalk.recentSeeded hwalk.sort
            hwalk.historyBefore
        exact hnothing
    rcases LivePoll.step_cases hnothing with hstep | hstep | ⟨page, hpage, hfetch, hstep⟩
    · rw [hstep]
      refine ⟨hfits.inOrder, fun hnone => absurd (hseeding.symm.trans hnone) (by simp), ?_⟩
      intro seeding' hsome
      cases hseeding.symm.trans hsome
      exact hwalk.append hfits.inOrder
    · rw [hstep]
      refine ⟨hfits.inOrder, fun hnone => absurd (hseeding.symm.trans hnone) (by simp), ?_⟩
      intro seeding' hsome
      cases hseeding.symm.trans hsome
      rw [state_written hwalk.sort]
      exact (hwalk.append hfits.inOrder).reread
    · have hnext := walked_page hfits hreaches hseeding hwalk hpage hfetch
      rw [hstep, hseeding]
      refine ⟨hfits.inOrder, (fun hnone => nomatch hnone), ?_⟩
      rintro seeding' ⟨⟩
      rw [state_written hnext.sort]
      exact hnext.reread

/-- The invariant leaves no gap. -/
theorem LiveRun.Walked.noGap (h : s.Walked env position) : s.NoGap env := by
  intro _ seeding hseeding start hstart m hm hprecedes hlt
  have hwalk := h.seeded seeding hseeding
  obtain ⟨text, htext, hread⟩ := Option.bind_eq_some_iff.mp hstart
  obtain ⟨n, rfl, hsmall, hbelow, -⟩ := hwalk.liveStart text htext
  rw [env.number.read_nat n hsmall] at hread
  cases hread
  exact hbelow m hm (by exact_mod_cast hlt) hprecedes

end Invariant

end Regenic.Feishu
