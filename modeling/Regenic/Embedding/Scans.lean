import Mathlib.Data.List.SplitBy
import Mathlib.Data.Prod.Lex
import Regenic.Embedding.Matching

/-!
What is found in one document. A file is found by its words when they stand in one of its runs,
which are the longest stretches of its text whose chunks follow each other; the chunk that stands
for the document is the first of its nearest.
-/

namespace Regenic.Embedding

open Lib

/-! ## Scores -/

theorem abs_toFixed9_le_one {value : ℚ} (h : |value| ≤ 1) : |toFixed9 value| ≤ 1 := by
  let places : ℤ := ⌊|value| * 10 ^ 9 + 1 / 2⌋
  have hnonneg : 0 ≤ places := Int.floor_nonneg.mpr (by positivity)
  have hle : places ≤ 10 ^ 9 := by
    have hlt : |value| * 10 ^ 9 + 1 / 2 < ((10 ^ 9 + 1 : ℤ) : ℚ) := by
      push_cast
      linarith
    have := Int.floor_lt.mpr hlt
    omega
  have hcast : |(places : ℚ)| ≤ 10 ^ 9 := by
    rw [abs_of_nonneg (by exact_mod_cast hnonneg)]
    exact_mod_cast hle
  unfold toFixed9
  refine abs_nearest_le_one ?_
  rw [abs_div, abs_of_pos (by norm_num : (0 : ℚ) < 10 ^ 9), div_le_one (by norm_num)]
  split
  · rw [Int.cast_neg, abs_neg]
    exact hcast
  · exact hcast

theorem abs_chunkScore_le_one (platform : EmbeddingPlatform) (query vector : List ℚ) :
    |chunkScore platform query vector| ≤ 1 := by
  refine abs_toFixed9_le_one (abs_le.mpr ⟨le_max_left _ _, ?_⟩)
  exact max_le (by norm_num) (min_le_left _ _)

/-! ## Parts -/

/-- Parts found by their words are above the others. -/
def partRank (part : SearchMatch) : Bool ×ₗ ℚ := toLex (part.lexical, part.score)

def admitted (parts : SearchParts) (part : SearchMatch) : SearchParts :=
  admitPart parts part.origin part.score part.lexical

theorem partRank_lt {first second : SearchMatch} : partRank first < partRank second ↔
    ((second.lexical && !first.lexical) ||
      (second.lexical = first.lexical && first.score < second.score)) = true := by
  unfold partRank
  rw [Prod.Lex.toLex_lt_toLex]
  cases hfirst : first.lexical <;> cases hsecond : second.lexical <;> simp

theorem get?_admitted (parts : SearchParts) (part : SearchMatch) (index : Int) :
    (admitted parts part).get? index =
      if part.origin.partIndex = index then keepGreatest partRank (parts.get? index) part
      else parts.get? index := by
  have hkept : ∀ previous, parts.get? part.origin.partIndex = previous →
      (admitted parts part).get? index = if part.origin.partIndex = index then
        keepGreatest partRank previous part else parts.get? index := by
    intro previous hprevious
    unfold admitted admitPart
    rw [hprevious]
    cases previous with
    | none =>
      simp only [if_true]
      rw [Table.get?_put]
      rfl
    | some previous =>
      unfold keepGreatest
      rw [Option.all_some]
      simp only [partRank_lt, decide_eq_true_eq]
      split
      · rw [Table.get?_put]
      · split
        · next heq => exact heq ▸ hprevious
        · rfl
  rw [hkept _ rfl]
  split
  · next heq => rw [heq]
  · rfl

/-- Under each part stands the first among the greatest that were admitted for it. -/
theorem get?_foldl_admitted (offers : List SearchMatch) (index : Int) :
    (offers.foldl admitted ∅).get? index =
      greatest partRank (offers.filter fun part => part.origin.partIndex = index) := by
  induction offers using List.reverseRecOn with
  | nil => rfl
  | append_singleton offers part ih =>
    rw [List.foldl_append, List.foldl_cons, List.foldl_nil, get?_admitted, ih, List.filter_append]
    by_cases hindex : part.origin.partIndex = index
    · rw [if_pos hindex, List.filter_cons_of_pos (by simpa using hindex), List.filter_nil,
        greatest_concat]
    · rw [if_neg hindex, List.filter_cons_of_neg (by simpa using hindex), List.filter_nil,
        List.append_nil]

/-! ## Runs of text -/

def ContextVectorChunk.isText (chunk : ContextVectorChunk) : Bool :=
  chunk.origin.any fun origin => origin.mode = .text

def ContextVectorChunk.fileText (chunk : ContextVectorChunk) : CodeUnits :=
  (chunk.origin.bind (·.text)).getD []

/-- The second chunk goes on with the text of the same file where the first one ends. -/
def follows (first second : ContextVectorChunk) : Bool :=
  first.isText && second.isText && first.origin.any fun before => second.origin.any fun next =>
    before.partIndex = next.partIndex && before.contentHash = next.contentHash &&
      before.start + first.fileText.length = next.start

def fileRuns (chunks : List ContextVectorChunk) : List (List ContextVectorChunk) :=
  chunks.splitBy follows

section Scores

variable (score : ContextVectorChunk → ℚ)

def chunkPart (chunk : ContextVectorChunk) : Option SearchMatch :=
  chunk.origin.map fun origin => ⟨origin, score chunk, false⟩

def runScore : List ContextVectorChunk → ℚ
  | [] => 0
  | first :: rest => rest.foldl (fun best chunk => max best (score chunk)) (score first)

/-- A run as the scan holds it; what is not text is in no run. -/
def textRunOf (run : List ContextVectorChunk) : Option TextRun :=
  (run.head?.bind (·.origin)).bind fun origin => run.getLast?.bind fun last =>
    last.origin.bind fun lastOrigin =>
      if origin.mode = .text then
        some ⟨origin, run.map (·.fileText), lastOrigin.start + last.fileText.length,
          runScore score run⟩
      else none

variable (platform : EmbeddingPlatform) (query : CodeUnits)

def flushed (textRun : TextRun) : Option SearchMatch :=
  if platform.lexicalHit textRun.texts.flatten query then
    some ⟨textRun.joined, textRun.score, true⟩
  else none

/-- The part that a run is found as, when it has the words. -/
def runPart (run : List ContextVectorChunk) : Option SearchMatch :=
  (textRunOf score run).bind (flushed platform query)

/-- All that is admitted while the chunks are read, when the run `current` is not yet at its
end. -/
def offers (current : List ContextVectorChunk) : List ContextVectorChunk → List SearchMatch
  | [] => (runPart score platform query current).toList
  | chunk :: rest =>
    if current.getLast?.any fun last => follows last chunk then
      (chunkPart score chunk).toList ++ offers (current ++ [chunk]) rest
    else if chunk.isText then
      (chunkPart score chunk).toList ++ (runPart score platform query current).toList ++
        offers [chunk] rest
    else
      (runPart score platform query current).toList ++ (chunkPart score chunk).toList ++
        offers [] rest

/-- The parts and the run after one more chunk. -/
def scanParts (state : SearchParts × Option TextRun) (chunk : ContextVectorChunk) :
    SearchParts × Option TextRun :=
  admitChunk platform query state.1 state.2 chunk.origin (score chunk)

variable {score}
variable {chunk first last : ContextVectorChunk} {current chunks run : List ContextVectorChunk}
  {origin : ContextChunkOrigin}

theorem textRunOf_concat {run : TextRun} (h : textRunOf score current = some run)
    (horigin : chunk.origin = some origin) :
    textRunOf score (current ++ [chunk]) = some (run.push origin (score chunk)) := by
  cases current with
  | nil => cases h
  | cons first rest =>
    unfold textRunOf at h ⊢
    obtain ⟨head, hhead, h⟩ := Option.bind_eq_some_iff.mp h
    obtain ⟨last, hlast, h⟩ := Option.bind_eq_some_iff.mp h
    obtain ⟨lastOrigin, hlastOrigin, h⟩ := Option.bind_eq_some_iff.mp h
    split at h
    · next hmode =>
      cases h
      rw [List.head?_cons, Option.bind_some] at hhead
      rw [List.cons_append, List.head?_cons, Option.bind_some, hhead, Option.bind_some,
        ← List.cons_append, List.getLast?_concat, Option.bind_some, horigin, Option.bind_some,
        if_pos hmode]
      have htext : chunk.fileText = origin.text.getD [] := by
        unfold ContextVectorChunk.fileText
        rw [horigin, Option.bind_some]
      have hscore : runScore score ((first :: rest) ++ [chunk]) =
          max (runScore score (first :: rest)) (score chunk) := by
        simp [runScore, List.foldl_append]
      unfold TextRun.push
      rw [hscore, htext, List.map_append, List.map_singleton, htext]
    · cases h

theorem textRunOf_single (horigin : chunk.origin = some origin) (hmode : origin.mode = .text) :
    textRunOf score [chunk] =
      some ((TextRun.begin origin (score chunk)).push origin (score chunk)) := by
  have htext : chunk.fileText = origin.text.getD [] := by
    unfold ContextVectorChunk.fileText
    rw [horigin, Option.bind_some]
  simp [textRunOf, horigin, hmode, htext, TextRun.begin, TextRun.push, runScore]

/-- Chunks of one file. -/
def samePart (first second : ContextVectorChunk) : Prop :=
  first.origin.map (fun origin => (origin.partIndex, origin.contentHash)) =
    second.origin.map fun origin => (origin.partIndex, origin.contentHash)

theorem samePart_of_follows {second : ContextVectorChunk} (h : follows first second = true) :
    samePart first second := by
  unfold follows at h
  unfold samePart
  cases hfirst : first.origin with
  | none => simp [hfirst] at h
  | some before =>
    cases hsecond : second.origin with
    | none => simp [hsecond] at h
    | some next =>
      simp only [hfirst, hsecond, Option.any_some, Bool.and_eq_true, decide_eq_true_eq] at h
      rw [Option.map_some, Option.map_some, h.2.1.1, h.2.1.2]

theorem samePart_of_chain {rest : List ContextVectorChunk}
    (h : (first :: rest).IsChain fun before next => follows before next = true) :
    ∀ chunk ∈ first :: rest, samePart first chunk := by
  induction rest generalizing first with
  | nil =>
    intro chunk hmem
    rw [List.mem_singleton.mp hmem]
    rfl
  | cons second rest ih =>
    obtain ⟨hfollows, hchain⟩ := List.isChain_cons_cons.mp h
    intro chunk hmem
    rcases List.mem_cons.mp hmem with rfl | hmem
    · rfl
    · exact (samePart_of_follows hfollows).trans (ih hchain chunk hmem)

/-- A run that may go on: its chunks are text and follow each other. -/
structure Running (current : List ContextVectorChunk) : Prop where
  chain : current.IsChain fun before next => follows before next = true
  text : ∀ chunk ∈ current, chunk.isText = true

theorem Running.nil : Running [] := ⟨List.IsChain.nil, by simp⟩

theorem Running.single (h : chunk.isText = true) : Running [chunk] :=
  ⟨List.IsChain.singleton _, by simpa using h⟩

theorem isText_of_follows {second : ContextVectorChunk} (h : follows first second = true) :
    second.isText = true := by
  unfold follows at h
  simp only [Bool.and_eq_true] at h
  exact h.1.2

theorem Running.concat (h : Running current) (hlast : current.getLast? = some last)
    (hfollows : follows last chunk = true) : Running (current ++ [chunk]) where
  chain := by
    rw [List.isChain_append]
    refine ⟨h.chain, List.IsChain.singleton _, fun before hbefore next hnext => ?_⟩
    rw [hlast] at hbefore
    cases hbefore
    cases hnext
    exact hfollows
  text := by
    intro other hmem
    rcases List.mem_append.mp hmem with hmem | hmem
    · exact h.text other hmem
    · rw [List.mem_singleton.mp hmem]
      exact isText_of_follows hfollows

theorem isText_iff : chunk.isText = true ↔
    ∃ origin, chunk.origin = some origin ∧ origin.mode = .text := by
  unfold ContextVectorChunk.isText
  rw [Option.any_eq_true]
  simp

variable (score) in
theorem Running.textRunOf_eq {rest : List ContextVectorChunk} (h : Running (first :: rest))
    (hlast : (first :: rest).getLast? = some last) :
    ∃ head before, first.origin = some head ∧ last.origin = some before ∧
      head.mode = .text ∧ before.mode = .text ∧
      textRunOf score (first :: rest) = some ⟨head, (first :: rest).map (·.fileText),
        before.start + last.fileText.length, runScore score (first :: rest)⟩ := by
  obtain ⟨head, hhead, hheadMode⟩ := isText_iff.mp (h.text first List.mem_cons_self)
  obtain ⟨before, hbefore, hbeforeMode⟩ := isText_iff.mp (h.text last (List.mem_of_getLast? hlast))
  refine ⟨head, before, hhead, hbefore, hheadMode, hbeforeMode, ?_⟩
  unfold textRunOf
  rw [List.head?_cons, Option.bind_some, hhead, Option.bind_some, hlast, Option.bind_some,
    hbefore, Option.bind_some, if_pos hheadMode]

/-- The run as the scan holds it goes on with a chunk when its last chunk does. -/
theorem Running.continues_eq (h : Running current) (hlast : current.getLast? = some last)
    (horigin : chunk.origin = some origin) (hmode : origin.mode = .text) :
    ∃ run, textRunOf score current = some run ∧ run.continues origin = follows last chunk := by
  cases current with
  | nil => cases hlast
  | cons first rest =>
    obtain ⟨head, before, hhead, hbefore, -, hbeforeMode, hrun⟩ :=
      h.textRunOf_eq score hlast
    have hsame := samePart_of_chain h.chain last (List.mem_of_getLast? hlast)
    unfold samePart at hsame
    rw [hhead, hbefore, Option.map_some, Option.map_some, Option.some.injEq, Prod.mk.injEq] at hsame
    refine ⟨_, hrun, ?_⟩
    simp [TextRun.continues, follows, ContextVectorChunk.isText, hbefore, horigin, hbeforeMode,
      hmode, hsame.1, hsame.2]

/-! ## What is admitted -/

variable {platform query}

theorem offers_cons (current rest : List ContextVectorChunk) (chunk : ContextVectorChunk) :
    offers score platform query current (chunk :: rest) =
      if current.getLast?.any fun last => follows last chunk then
        (chunkPart score chunk).toList ++ offers score platform query (current ++ [chunk]) rest
      else if chunk.isText then
        (chunkPart score chunk).toList ++ (runPart score platform query current).toList ++
          offers score platform query [chunk] rest
      else
        (runPart score platform query current).toList ++ (chunkPart score chunk).toList ++
          offers score platform query [] rest := rfl

@[simp] theorem textRunOf_nil : textRunOf score [] = none := rfl

@[simp] theorem runPart_nil : runPart score platform query [] = none := rfl

theorem runPart_lexical {part : SearchMatch} (h : runPart score platform query run = some part) :
    part.lexical = true := by
  obtain ⟨textRun, -, hflushed⟩ := Option.bind_eq_some_iff.mp h
  unfold flushed at hflushed
  split at hflushed
  · cases hflushed
    rfl
  · cases hflushed

theorem chunkPart_lexical {part : SearchMatch} (h : chunkPart score chunk = some part) :
    part.lexical = false := by
  obtain ⟨origin, -, rfl⟩ := Option.map_eq_some_iff.mp h
  rfl

theorem runPart_notText (h : chunk.isText = false) :
    runPart score platform query [chunk] = none := by
  unfold runPart textRunOf
  unfold ContextVectorChunk.isText at h
  cases horigin : chunk.origin with
  | none => simp [horigin]
  | some origin =>
    rw [horigin, Option.any_some, decide_eq_false_iff_not] at h
    simp [horigin, h]

theorem flushTextRun_eq (parts : SearchParts) (run : List ContextVectorChunk) :
    flushTextRun platform query parts (textRunOf score run) =
      (runPart score platform query run).toList.foldl admitted parts := by
  unfold runPart
  cases textRunOf score run with
  | none => rfl
  | some textRun =>
    simp only [flushTextRun, flushed, Option.bind_some]
    split <;> rfl

theorem follows_eq_false (h : chunk.isText = false) :
    (current.getLast?.any fun last => follows last chunk) = false := by
  rw [Option.any_eq_false]
  intro last _
  unfold follows
  rw [h, Bool.and_false, Bool.false_and]

theorem foldl_scanParts (hrunning : Running current) (chunks : List ContextVectorChunk)
    (parts : SearchParts) :
    let last := chunks.foldl (scanParts score platform query)
      (parts, textRunOf score current)
    flushTextRun platform query last.1 last.2 =
      (offers score platform query current chunks).foldl admitted parts := by
  induction chunks generalizing current parts with
  | nil => exact flushTextRun_eq parts current
  | cons chunk rest ih =>
    simp only [List.foldl_cons]
    cases htext : chunk.isText with
    | false =>
      have hstep : scanParts score platform query (parts, textRunOf score current) chunk =
            (((runPart score platform query current).toList ++
              (chunkPart score chunk).toList).foldl admitted parts, textRunOf score []) := by
        rw [List.foldl_append, ← flushTextRun_eq]
        unfold scanParts admitChunk chunkPart
        unfold ContextVectorChunk.isText at htext
        cases horigin : chunk.origin with
        | none => rfl
        | some origin =>
          rw [horigin, Option.any_some, decide_eq_false_iff_not] at htext
          cases hmode : origin.mode with
          | text => exact absurd hmode htext
          | visual => simp only [hmode]; rfl
      rw [hstep, ih Running.nil]
      rw [offers_cons, follows_eq_false htext, if_neg Bool.false_ne_true, htext,
        if_neg Bool.false_ne_true,
        ← List.foldl_append]
    | true =>
      obtain ⟨origin, horigin, hmode⟩ := isText_iff.mp htext
      have hadmitted : admitPart parts origin (score chunk) false =
          (chunkPart score chunk).toList.foldl admitted parts := by
        unfold chunkPart
        rw [horigin]
        rfl
      cases hlast : current.getLast? with
      | none =>
        have hstep : scanParts score platform query (parts, textRunOf score current) chunk =
            ((chunkPart score chunk).toList.foldl admitted parts, textRunOf score [chunk]) := by
          rw [List.getLast?_eq_none_iff.mp hlast, textRunOf_single horigin hmode, ← hadmitted]
          unfold scanParts admitChunk
          simp only [horigin, hmode, textRunOf_nil]
        rw [hstep, ih (Running.single htext)]
        rw [offers_cons, hlast, Option.any_none, if_neg Bool.false_ne_true, htext, if_pos rfl,
          List.getLast?_eq_none_iff.mp hlast, runPart_nil, Option.toList_none, List.append_nil,
          List.foldl_append]
      | some last =>
        obtain ⟨run, hrun, hcontinues⟩ := hrunning.continues_eq hlast horigin hmode
        cases hfollows : follows last chunk with
        | true =>
          have hstep : scanParts score platform query (parts, textRunOf score current) chunk =
              ((chunkPart score chunk).toList.foldl admitted parts,
                textRunOf score (current ++ [chunk])) := by
            rw [textRunOf_concat hrun horigin, ← hadmitted, hrun]
            unfold scanParts admitChunk
            simp only [horigin, hmode, hcontinues, hfollows, if_true]
          rw [hstep, ih (hrunning.concat hlast hfollows)]
          rw [offers_cons, hlast, Option.any_some, hfollows, if_pos rfl, List.foldl_append]
        | false =>
          have hstep : scanParts score platform query (parts, textRunOf score current) chunk =
              (((chunkPart score chunk).toList ++
                (runPart score platform query current).toList).foldl admitted parts,
                textRunOf score [chunk]) := by
            rw [textRunOf_single horigin hmode, List.foldl_append, ← hadmitted, ← flushTextRun_eq,
              hrun]
            unfold scanParts admitChunk
            simp only [horigin, hmode, hcontinues, hfollows, Bool.false_eq_true, if_false]
          rw [hstep, ih (Running.single htext)]
          rw [offers_cons, hlast, Option.any_some, hfollows, if_neg Bool.false_ne_true, htext,
            if_pos rfl,
            ← List.foldl_append]

/-- Found by its words is what a run of text is found as. -/
theorem filter_lexical_offers (hrunning : Running current) (chunks : List ContextVectorChunk) :
    (offers score platform query current chunks).filter (·.lexical) =
      (fileRuns (current ++ chunks)).filterMap (runPart score platform query) := by
  have hrun : ∀ current : List ContextVectorChunk,
      ((runPart score platform query current).toList).filter (·.lexical) =
        (runPart score platform query current).toList := by
    intro current
    rw [List.filter_eq_self]
    intro part hpart
    exact runPart_lexical (Option.mem_toList.mp hpart)
  have hchunk : ∀ chunk : ContextVectorChunk,
      ((chunkPart score chunk).toList).filter (·.lexical) = [] := by
    intro chunk
    rw [List.filter_eq_nil_iff]
    intro part hpart
    simp [chunkPart_lexical (Option.mem_toList.mp hpart)]
  have hclosed : ∀ {current : List ContextVectorChunk}, Running current →
      (fileRuns current).filterMap (runPart score platform query) =
        (runPart score platform query current).toList := by
    intro current hrunning
    cases hcurrent : current with
    | nil => rfl
    | cons first rest =>
      unfold fileRuns
      rw [List.splitBy_of_isChain (by simp) (hcurrent ▸ hrunning.chain)]
      cases hpart : runPart score platform query (first :: rest) with
      | none => rw [List.filterMap_cons_none hpart]; rfl
      | some part => rw [List.filterMap_cons_some hpart]; rfl
  induction chunks generalizing current with
  | nil => rw [List.append_nil, hclosed hrunning, offers, hrun]
  | cons chunk rest ih =>
    rw [offers_cons]
    split
    · next hfollows =>
      obtain ⟨last, hlast, hfollows⟩ := (Option.any_eq_true _ _).mp hfollows
      rw [List.filter_append, hchunk, List.nil_append, ih (hrunning.concat hlast hfollows),
        List.append_assoc, List.singleton_append]
    · next hfollows =>
      have hcut : fileRuns (current ++ chunk :: rest) =
          fileRuns current ++ fileRuns (chunk :: rest) := by
        refine List.splitBy_append_cons rest fun last hlast => ?_
        simpa [Option.mem_def.mp hlast] using hfollows
      rw [hcut, List.filterMap_append, hclosed hrunning]
      split
      · next htext =>
        rw [List.filter_append, List.filter_append, hchunk, hrun, List.nil_append,
          ih (Running.single htext), List.singleton_append]
      · next htext =>
        have halone : fileRuns (chunk :: rest) = [chunk] :: fileRuns rest := by
          refine List.splitBy_append (l := [chunk]) fun last hlast next _ => ?_
          obtain rfl : chunk = last := by simpa using hlast
          unfold follows
          rw [Bool.eq_false_iff.mpr htext, Bool.false_and, Bool.false_and]
        rw [List.filter_append, List.filter_append, hchunk, hrun, List.append_nil,
          ih Running.nil, List.nil_append, halone,
          List.filterMap_cons_none (runPart_notText (Bool.eq_false_iff.mpr htext))]

theorem filter_notLexical_offers (current chunks : List ContextVectorChunk) :
    (offers score platform query current chunks).filter (fun part => !part.lexical) =
      chunks.filterMap (chunkPart score) := by
  have hrun : ∀ current : List ContextVectorChunk,
      ((runPart score platform query current).toList).filter (fun part => !part.lexical) = [] := by
    intro current
    rw [List.filter_eq_nil_iff]
    intro part hpart
    simp [runPart_lexical (Option.mem_toList.mp hpart)]
  have hchunk : ∀ (chunk : ContextVectorChunk) (rest : List ContextVectorChunk),
      ((chunkPart score chunk).toList).filter (fun part => !part.lexical) ++
        rest.filterMap (chunkPart score) = (chunk :: rest).filterMap (chunkPart score) := by
    intro chunk rest
    cases hpart : chunkPart score chunk with
    | none => rw [List.filterMap_cons_none hpart]; rfl
    | some part =>
      rw [List.filterMap_cons_some hpart, Option.toList_some,
        List.filter_cons_of_pos (by simp [chunkPart_lexical hpart])]
      rfl
  induction chunks generalizing current with
  | nil => exact hrun current
  | cons chunk rest ih =>
    rw [offers_cons]
    split
    · rw [List.filter_append, ih, hchunk]
    · split
      · rw [List.filter_append, List.filter_append, ih, hrun, List.append_nil, hchunk]
      · rw [List.filter_append, List.filter_append, ih, hrun, List.nil_append, hchunk]

end Scores

/-! ## A whole document -/

section Documents

variable (platform : EmbeddingPlatform) (input : VectorQuery)

def VectorQuery.score (chunk : ContextVectorChunk) : ℚ :=
  chunkScore platform input.queryVector chunk.vector

def DocumentScan.readAll (bodyLength : Nat) (scan : DocumentScan)
    (chunks : List ContextVectorChunk) : DocumentScan :=
  chunks.foldl (fun scan chunk =>
    scan.read platform input bodyLength chunk (input.score platform chunk)) scan

/-- The chunks that may stand for the document. -/
def eligibleChunks (bodyLength : Nat) (chunks : List ContextVectorChunk) :
    List ContextVectorChunk :=
  chunks.filter (eligibleChunk input.searchKind bodyLength)

def bestHit (bodyLength : Nat) (chunks : List ContextVectorChunk) : Option ChunkHit :=
  greatest ChunkHit.score ((eligibleChunks input bodyLength chunks).map fun chunk =>
    hitOf chunk (input.score platform chunk))

def searchPartsOf (chunks : List ContextVectorChunk) : SearchParts :=
  match input.fileQuery with
  | none => ∅
  | some query => (offers (input.score platform) platform query [] chunks).foldl admitted ∅

/-- What is found of a document whose rows are in order. -/
def foundOf (generation : EmbeddingGeneration) (authorized : AuthorizedKey)
    (chunks : List ContextVectorChunk) : Option ContextVectorMatch :=
  (bestHit platform input (authorized.bodyLength.getD 0) chunks).map fun best => {
    toContextLexicalKey := authorized.key
    toChunkHit := best
    searchMatches := (searchPartsOf platform input chunks).rows
    materialLength :=
      if generation.extractorVersion = .storedBodyAndAttachmentsV2 then
        some (chunks.getLast?.elim 0 (·.stop))
      else none }

variable {platform input} {bodyLength : Nat}

theorem readAll_best (scan : DocumentScan) (chunks : List ContextVectorChunk) :
    (scan.readAll platform input bodyLength chunks).best =
      ((eligibleChunks input bodyLength chunks).map fun chunk =>
        hitOf chunk (input.score platform chunk)).foldl (keepGreatest ChunkHit.score)
          scan.best := by
  induction chunks generalizing scan with
  | nil => rfl
  | cons chunk rest ih =>
    unfold DocumentScan.readAll eligibleChunks at ih ⊢
    rw [List.foldl_cons, ih]
    cases heligible : eligibleChunk input.searchKind bodyLength chunk with
    | true =>
      rw [List.filter_cons_of_pos heligible]
      simp [DocumentScan.read, heligible]
    | false =>
      rw [List.filter_cons_of_neg (by simp [heligible])]
      simp [DocumentScan.read, heligible]

theorem readAll_places (scan : DocumentScan) (chunks : List ContextVectorChunk) :
    (scan.readAll platform input bodyLength chunks).chunks = scan.chunks + chunks.length ∧
      (scan.readAll platform input bodyLength chunks).materialLength =
        chunks.getLast?.elim scan.materialLength (·.stop) := by
  induction chunks using List.reverseRecOn with
  | nil => exact ⟨rfl, rfl⟩
  | append_singleton chunks chunk ih =>
    unfold DocumentScan.readAll at ih ⊢
    rw [List.foldl_append, List.foldl_cons, List.foldl_nil, List.getLast?_concat,
      List.length_append, List.length_singleton, ← Nat.add_assoc, ← ih.1]
    exact ⟨rfl, rfl⟩

theorem readAll_parts (scan : DocumentScan) (chunks : List ContextVectorChunk) :
    ((scan.readAll platform input bodyLength chunks).parts,
      (scan.readAll platform input bodyLength chunks).textRun) =
        match input.fileQuery with
        | none => (scan.parts, scan.textRun)
        | some query =>
          chunks.foldl (scanParts (input.score platform) platform query)
            (scan.parts, scan.textRun) := by
  induction chunks generalizing scan with
  | nil => cases input.fileQuery <;> rfl
  | cons chunk rest ih =>
    unfold DocumentScan.readAll at ih ⊢
    rw [List.foldl_cons, ih]
    cases hquery : input.fileQuery with
    | none => simp [DocumentScan.read, hquery]
    | some query => simp [DocumentScan.read, hquery, scanParts]

theorem foldlM_scanChunk {dimensions : Nat} {scan : DocumentScan}
    {chunks : List ContextVectorChunk} (htiles : Tiles scan.chunks scan.materialLength chunks)
    (hdimensions : ∀ chunk ∈ chunks, chunk.vector.length = dimensions)
    (hunit : ∀ chunk ∈ chunks, platform.isUnit chunk.vector = true)
    (horigin : ∀ chunk ∈ chunks, parseOrigin platform chunk = .ok ()) :
    chunks.foldlM (scanChunk platform input dimensions bodyLength) scan =
      .ok (scan.readAll platform input bodyLength chunks) := by
  induction chunks generalizing scan with
  | nil => rfl
  | cons chunk rest ih =>
    obtain ⟨hordinal, hstart, hlt, htail⟩ := htiles
    have hscore : cosineScore platform input.queryVector dimensions chunk.vector =
        .ok (input.score platform chunk) := by
      unfold cosineScore
      simp only [hdimensions chunk List.mem_cons_self, hunit chunk List.mem_cons_self,
        decide_true, throwUnless_true, bind, Except.bind]
      rfl
    have hfirst : scanChunk platform input dimensions bodyLength scan chunk =
        .ok (scan.read platform input bodyLength chunk (input.score platform chunk)) := by
      unfold scanChunk
      simp only [hordinal, hstart, hlt, hscore, horigin chunk List.mem_cons_self, decide_true,
        Bool.and_self, throwUnless_true, bind, Except.bind]
    rw [List.foldlM_cons, hfirst]
    exact ih htail (fun chunk hmem => hdimensions chunk (List.mem_cons_of_mem _ hmem))
      (fun chunk hmem => hunit chunk (List.mem_cons_of_mem _ hmem))
      fun chunk hmem => horigin chunk (List.mem_cons_of_mem _ hmem)

/-- A whole document is read to its end. -/
theorem matchDocument_eq {generation : EmbeddingGeneration} {authorized : AuthorizedKey}
    {chunks : List ContextVectorChunk} (htiles : Tiles 0 0 chunks) (hne : 1 ≤ chunks.length)
    (hadmits : ∀ chunk ∈ chunks, Admits platform generation chunk)
    (hunit : ∀ chunk ∈ chunks, platform.isUnit chunk.vector = true) :
    matchDocument platform input generation authorized chunks.length chunks =
      .ok (foundOf platform input generation authorized chunks) := by
  let scan : DocumentScan :=
    DocumentScan.readAll platform input (authorized.bodyLength.getD 0) {} chunks
  have hscan : chunks.foldlM (scanChunk platform input generation.model.dimensions
      (authorized.bodyLength.getD 0)) {} = .ok scan :=
    foldlM_scanChunk htiles (fun chunk hmem => (hadmits chunk hmem).dimensions) hunit
      fun chunk hmem => (hadmits chunk hmem).origin
  have hbest : scan.best = bestHit platform input (authorized.bodyLength.getD 0) chunks :=
    readAll_best {} chunks
  obtain ⟨hchunks, hlength⟩ : scan.chunks = 0 + chunks.length ∧
      scan.materialLength = chunks.getLast?.elim 0 (·.stop) := readAll_places {} chunks
  have hparts : scan.searchMatches platform input = searchPartsOf platform input chunks := by
    have hstate : (scan.parts, scan.textRun) = _ := readAll_parts {} chunks
    unfold DocumentScan.searchMatches searchPartsOf
    cases hquery : input.fileQuery with
    | none =>
      rw [hquery] at hstate
      exact congrArg Prod.fst hstate
    | some query =>
      rw [hquery] at hstate
      simp only
      rw [← foldl_scanParts Running.nil chunks ∅]
      exact congrArg (fun state => flushTextRun platform query state.1 state.2) hstate
  have hcount : (decide (scan.chunks = chunks.length) && decide (scan.chunks ≠ 0)) = true := by
    simp only [Bool.and_eq_true, decide_eq_true_eq]
    omega
  unfold matchDocument foundOf
  rw [hscan]
  simp only [bind, Except.bind, hcount, throwUnless_true, hparts, hbest, hlength]

end Documents

/-! ## What is found -/

/-- A run of text of this file. -/
def ofFile (index : Int) (run : List ContextVectorChunk) : Bool :=
  run.head?.any fun chunk => chunk.isText && chunk.origin.any fun origin =>
    origin.partIndex = index

theorem running_of_mem_fileRuns {chunks run : List ContextVectorChunk}
    (hrun : run ∈ fileRuns chunks)
    {first : ContextVectorChunk} (hfirst : run.head? = some first) (htext : first.isText = true) :
    Running run := by
  have hchain : run.IsChain fun before next => follows before next = true :=
    List.isChain_of_mem_splitBy hrun
  refine ⟨hchain, ?_⟩
  clear hrun
  induction run generalizing first with
  | nil => simp
  | cons head rest ih =>
    cases hfirst
    intro chunk hmem
    rcases List.mem_cons.mp hmem with rfl | hmem
    · exact htext
    · cases rest with
      | nil => cases hmem
      | cons second rest =>
        obtain ⟨hfollows, hrest⟩ := List.isChain_cons_cons.mp hchain
        exact ih rfl (isText_of_follows hfollows) hrest chunk hmem

section Found

variable {platform : EmbeddingPlatform} {input : VectorQuery}

/-- A run is found by its words when these stand in its text. -/
theorem runPart_iff {score : ContextVectorChunk → ℚ} {query : CodeUnits}
    {chunks run : List ContextVectorChunk} (hrun : run ∈ fileRuns chunks) (index : Int) :
    (∃ part, runPart score platform query run = some part ∧ part.origin.partIndex = index) ↔
      ofFile index run = true ∧ platform.lexicalHit (run.flatMap (·.fileText)) query = true := by
  cases hcase : run with
  | nil => simp [ofFile]
  | cons first rest =>
    rw [hcase] at hrun
    cases htext : first.isText with
    | false =>
      have hnone : textRunOf score (first :: rest) = none := by
        unfold textRunOf
        unfold ContextVectorChunk.isText at htext
        rw [List.head?_cons, Option.bind_some]
        cases horigin : first.origin with
        | none => rfl
        | some origin =>
          rw [horigin, Option.any_some, decide_eq_false_iff_not] at htext
          simp [htext]
      simp [runPart, hnone, ofFile, htext]
    | true =>
      obtain ⟨last, hlast⟩ : ∃ last, (first :: rest).getLast? = some last :=
        ⟨_, List.getLast?_eq_some_getLast (by simp)⟩
      obtain ⟨head, _, hhead, -, -, -, htextRun⟩ :=
        (running_of_mem_fileRuns hrun rfl htext).textRunOf_eq score hlast
      unfold runPart
      rw [htextRun, Option.bind_some]
      unfold flushed ofFile
      rw [List.head?_cons, Option.any_some, htext, hhead, Option.any_some, Bool.true_and,
        decide_eq_true_eq, ← List.flatMap_def]
      cases platform.lexicalHit ((first :: rest).flatMap (·.fileText)) query with
      | true => simp [TextRun.joined]
      | false => simp

/-- What a match says of its document: the chunk that stands for it is the first of the nearest
that may, a file is found by its words exactly when one of its runs has them, and under each file
stands its best run with the words or, without one, its best chunk. -/
structure Found (platform : EmbeddingPlatform) (input : VectorQuery) (bodyLength : Nat)
    (chunks : List ContextVectorChunk) (found : ContextVectorMatch) : Prop where
  standsFor : ∃ chunk, FirstGreatest (input.score platform) (eligibleChunks input bodyLength chunks)
    chunk ∧ found.toChunkHit = hitOf chunk (input.score platform chunk)
  words : ∀ query, input.fileQuery = some query → ∀ index,
    (∃ part ∈ found.searchMatches, part.origin.partIndex = index ∧ part.lexical = true) ↔
      ∃ run ∈ fileRuns chunks, ofFile index run = true ∧
        platform.lexicalHit (run.flatMap (·.fileText)) query = true
  parts : ∀ query, input.fileQuery = some query → ∀ index,
    (found.searchMatches.find? fun part => part.origin.partIndex = index) =
      (greatest partRank (((fileRuns chunks).filterMap
        (runPart (input.score platform) platform query)).filter fun part =>
          part.origin.partIndex = index)).or
      (greatest partRank ((chunks.filterMap (chunkPart (input.score platform))).filter fun part =>
        part.origin.partIndex = index))
  unsearched : input.fileQuery = none → found.searchMatches = []

theorem get?_searchPartsOf {query : CodeUnits} (hquery : input.fileQuery = some query)
    (chunks : List ContextVectorChunk) (index : Int) :
    (searchPartsOf platform input chunks).get? index =
      (greatest partRank (((fileRuns chunks).filterMap
        (runPart (input.score platform) platform query)).filter fun part =>
          part.origin.partIndex = index)).or
      (greatest partRank ((chunks.filterMap (chunkPart (input.score platform))).filter fun part =>
        part.origin.partIndex = index)) := by
  have hrank : ∀ first second : SearchMatch, first.lexical = true → second.lexical = false →
      partRank second < partRank first := by
    intro first second hfirst hsecond
    rw [partRank_lt, hfirst, hsecond]
    rfl
  unfold searchPartsOf
  rw [hquery]
  simp only
  rw [get?_foldl_admitted, greatest_partition hrank]
  have hcomm : ∀ (p : SearchMatch → Bool) (l : List SearchMatch),
      ((l.filter fun part => part.origin.partIndex = index).filter p) =
        ((l.filter p).filter fun part => part.origin.partIndex = index) := by
    intro p l
    rw [List.filter_filter, List.filter_filter]
    exact List.filter_congr fun part _ => Bool.and_comm _ _
  rw [hcomm, hcomm, filter_lexical_offers Running.nil, filter_notLexical_offers, List.nil_append]

theorem foundOf_words {query : CodeUnits} (hquery : input.fileQuery = some query)
    (chunks : List ContextVectorChunk) (index : Int) :
    (∃ part ∈ (searchPartsOf platform input chunks).rows,
        part.origin.partIndex = index ∧ part.lexical = true) ↔
      ∃ run ∈ fileRuns chunks, ofFile index run = true ∧
        platform.lexicalHit (run.flatMap (·.fileText)) query = true := by
  let runs := ((fileRuns chunks).filterMap
    (runPart (input.score platform) platform query)).filter fun part =>
      part.origin.partIndex = index
  have hruns : runs ≠ [] ↔ ∃ run ∈ fileRuns chunks, ofFile index run = true ∧
      platform.lexicalHit (run.flatMap (·.fileText)) query = true := by
    constructor
    · intro hne
      obtain ⟨part, hpart⟩ := List.exists_mem_of_ne_nil runs hne
      obtain ⟨hpart, hindex⟩ := List.mem_filter.mp hpart
      obtain ⟨run, hrun, hpart⟩ := List.mem_filterMap.mp hpart
      exact ⟨run, hrun, (runPart_iff hrun index).mp ⟨part, hpart, of_decide_eq_true hindex⟩⟩
    · rintro ⟨run, hrun, hhit⟩
      obtain ⟨part, hpart, hindex⟩ := (runPart_iff hrun index).mpr hhit
      exact List.ne_nil_of_mem (List.mem_filter.mpr
        ⟨List.mem_filterMap.mpr ⟨run, hrun, hpart⟩, decide_eq_true hindex⟩)
  have hget : (searchPartsOf platform input chunks).get? index = (greatest partRank runs).or _ :=
    get?_searchPartsOf hquery chunks index
  rw [← hruns]
  constructor
  · rintro ⟨part, hmem, rfl, hlexical⟩ hnil
    rw [Table.get?_key hmem] at hget
    have hnone : greatest partRank runs = none := greatest_eq_none.mpr hnil
    rw [hnone, Option.none_or] at hget
    have hpart := (firstGreatest_of_greatest hget.symm).mem
    obtain ⟨chunk, -, hchunk⟩ := List.mem_filterMap.mp (List.mem_filter.mp hpart).1
    rw [chunkPart_lexical hchunk] at hlexical
    cases hlexical
  · intro hne
    obtain ⟨part, hpart⟩ : ∃ part, greatest partRank runs = some part := exists_greatest hne
    rw [hpart, Option.some_or] at hget
    obtain ⟨hmem, hindex⟩ := Table.get?_eq_some.mp hget
    have hrun := (List.mem_filter.mp (firstGreatest_of_greatest hpart).mem).1
    obtain ⟨run, -, hrun⟩ := List.mem_filterMap.mp hrun
    exact ⟨part, hmem, hindex, runPart_lexical hrun⟩

theorem found_of_foundOf {generation : EmbeddingGeneration} {authorized : AuthorizedKey}
    {chunks : List ContextVectorChunk} {found : ContextVectorMatch}
    (h : foundOf platform input generation authorized chunks = some found) :
    Found platform input (authorized.bodyLength.getD 0) chunks found := by
  obtain ⟨best, hbest, rfl⟩ := Option.map_eq_some_iff.mp h
  refine ⟨?_, fun query hquery => foundOf_words hquery chunks,
    fun query hquery => get?_searchPartsOf hquery chunks, fun hquery => ?_⟩
  · obtain ⟨chunk, hchunk, hhit⟩ := FirstGreatest.of_map (firstGreatest_of_greatest hbest)
    exact ⟨chunk, hchunk, hhit.symm⟩
  · simp only [searchPartsOf, hquery]
    rfl

end Found

end Regenic.Embedding
