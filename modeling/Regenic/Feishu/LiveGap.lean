import Regenic.Feishu.NoGap

/-!
The live walk over whole runs, and the gap that a newest page leaves when more than a page of
messages came before it.
-/

namespace Regenic.Feishu

open Lib Ingest

section Runs

variable (env : FeishuEnv) (options : FeishuChatPollConnectorOptions)

end Runs

/-! ### A gap -/

/-- The position that a token of digits names. -/
def digitPosition (token : String) : Nat := Nat.ofDigitChars 10 token.toList 0

/-- A client that lists a chat as documented. -/
def listChat {number : JsNumber} (chat : List (ChatMessage number)) (input : FeishuListInput) :
    FeishuHistoryPage :=
  match input.sortType with
  | .byCreateTimeAsc =>
    let start := listStart digitPosition chat input
    { items := ((chat.drop start).take input.pageSize).map (·.item)
      hasMore := start + input.pageSize < chat.length
      pageToken := some (toString (start + input.pageSize)) }
  | .byCreateTimeDesc =>
    { items := (chat.reverse.take input.pageSize).map (·.item)
      hasMore := input.pageSize < chat.length
      pageToken := some (toString input.pageSize) }

theorem digitPosition_toString (n : Nat) : digitPosition (toString n) = n := by
  have hdigits : (toString n).toList = Nat.toDigits 10 n := Nat.toList_repr
  rw [digitPosition, hdigits]
  exact Nat.ofDigitChars_toDigits (by omega) (by omega)

theorem nextToken_some {page : FeishuHistoryPage} {token : String}
    (h : page.nextToken = some token) : page.hasMore = true ∧ page.pageToken = some token := by
  unfold FeishuHistoryPage.nextToken at h
  split at h
  · next hmore => exact ⟨hmore, (present_some.mp h).1⟩
  · cases h

theorem lists_listChat {number : JsNumber} (chat : List (ChatMessage number))
    (input : FeishuListInput) : Lists digitPosition chat input (listChat chat input) := by
  unfold listChat
  cases hsort : input.sortType with
  | byCreateTimeAsc =>
    refine ⟨?_, fun _ => ⟨input.pageSize, rfl, ?_, ?_⟩, fun h => ?_⟩
    · simp only [List.length_map]
      exact List.length_take_le _ _
    · intro hmore
      exact Nat.le_of_not_lt (of_decide_eq_false hmore)
    · intro token htoken
      obtain ⟨hmore, hpage⟩ := nextToken_some htoken
      have hlt : listStart digitPosition chat input + input.pageSize < chat.length :=
        of_decide_eq_true hmore
      cases hpage
      rw [digitPosition_toString]
      simp only [List.length_map, List.length_take, List.length_drop]
      omega
    · rw [hsort] at h
      cases h
  | byCreateTimeDesc =>
    refine ⟨?_, fun h => ?_, fun _ _ _ => ⟨input.pageSize, rfl, ?_⟩⟩
    · simp only [List.length_map]
      exact List.length_take_le _ _
    · rw [hsort] at h
      cases h
    · intro hmore
      exact Nat.le_of_not_lt (of_decide_eq_false hmore)

theorem LivePoll.step_chat {env : FeishuEnv} {options : FeishuChatPollConnectorOptions}
    (s : LiveRun env.number) (e : LivePoll env.number) :
    (e.step env options s).chat = s.chat ++ e.arrived := by
  unfold LivePoll.step
  split <;> rfl

def liveEnv : FeishuEnv where
  number := decimalNumber
  dateParse _ := none
  toIso _ := "t"
  sha256 _ := "h"
  extractFeishuText _ _ := none
  extractFeishuMedia _ := []
  feishuMentionNames _ := []

def liveChat : FeishuChatPollConnectorOptions where
  connectorId := "f"
  orgId := "o"
  chatId := "c"
  pageSize := 1

/-- A create time in seconds reads as them. -/
theorem reads_second {n : Nat} (hpos : 0 < n) (hsmall : n < 10 ^ 12) :
    feishuCreateTimeToStartSeconds decimalNumber (some (toString n)) = some (toString n) := by
  have hpresent : present (some (toString n)) = some (toString n) :=
    present_some.mpr ⟨rfl, toString_ne_empty n⟩
  have hread : decimalNumber.read (toString n) = some (n : ℚ) :=
    decimalNumber.read_nat n (by omega)
  have hms : feishuCreateTimeMs decimalNumber (some (toString n)) = some ((n : ℚ) * 1000) := by
    unfold feishuCreateTimeMs
    rw [hpresent, Option.bind_some, hread, Option.bind_some, if_neg, if_pos]
    · exact_mod_cast hsmall
    · exact not_le.mpr (by exact_mod_cast hpos)
  unfold feishuCreateTimeToStartSeconds
  rw [hms, Option.map_some]
  have hfloor : ⌊(n : ℚ) * 1000 / 1000⌋ = (n : ℤ) := by
    rw [mul_div_assoc, div_self (by norm_num), mul_one, Int.floor_natCast]
  rw [hfloor]
  exact congrArg some (decimalNumber.print_nat n (by omega))

/-- A message of an early second. -/
def textMessage (n : Fin 9) : ChatMessage liveEnv.number where
  item := {
    messageId := toString (n.val + 1)
    msgType := "text"
    createTime := some (toString (n.val + 1)) }
  second := n.val + 1
  reads := reads_second (by omega) (by omega)
  small := by omega

/-- The client of a chat answers a poll. -/
def answersOf (chat : List (ChatMessage liveEnv.number)) : FeishuAnswers where
  listMessages input := some (listChat chat input)
  resolveNames _ := some []
  now := "t"
  clock := 0

/-- The first poll, of a chat of two messages. -/
def firstPoll : LivePoll liveEnv.number where
  arrived := [textMessage 0, textMessage 1]
  answers := answersOf [textMessage 0, textMessage 1]

/-- A poll of the interactive lane, after one message or two. -/
def newestPoll (arrived : List (ChatMessage liveEnv.number)) : LivePoll liveEnv.number where
  arrived := arrived
  latest := true
  answers := answersOf ([textMessage 0, textMessage 1] ++ arrived)

theorem fits_polls (arrived : List (ChatMessage liveEnv.number))
    (horder : InRankOrder ChatMessage.second ([textMessage 0, textMessage 1] ++ arrived)) :
    Along (LivePoll.step liveEnv liveChat) (fun s e => e.Fits liveEnv s digitPosition) {}
      [firstPoll, newestPoll arrived] := by
  have hchat : (firstPoll.step liveEnv liveChat {}).chat = [textMessage 0, textMessage 1] :=
    LivePoll.step_chat {} firstPoll
  refine ⟨⟨horder.of_append, ?_⟩, ⟨?_, ?_⟩, trivial⟩
  · rintro input page ⟨⟩
    exact lists_listChat _ input
  · rw [hchat]
    exact horder
  · rintro input page ⟨⟩
    rw [hchat]
    exact lists_listChat _ input

end Regenic.Feishu
