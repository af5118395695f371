import GenusOs.Engine.Compaction.Messages
import GenusOs.Python.Str
import Mathlib

/-!
# Compaction

`compact` and its fallback `drain_history`. Token counting, hashing, the models' answers and the
functions that only word a piece of text are parameters (`Platform`); what is kept, moved, merged or
dropped is here. The counts of the pre-pass are only logged, and are left out.
-/

namespace GenusOs.Engine.Compaction

open GenusOs.Python

structure CompactionFact where
  category : String
  text : String
  priority : Int
  deriving DecidableEq, Repr

structure CompactionResult where
  messages : List Message
  factsExtracted : List CompactionFact := []
  passesUsed : Nat := 0
  tokensBefore : Int := 0
  tokensAfter : Int := 0
  degraded : Bool := false

/-- `estimate_tokens` (a heuristic over the characters, or the model's own tokenizer), SHA-256, the
wording of `extract_tool_summary`, `_truncate_arguments` and `deterministic_tail`, the facts
`_merge_retained_facts` reads out of one retained text, the fleet's model chain, the models' answers
(`update_summary` raises where it is `none`) and the setting `compaction_protect_first_n`. -/
structure Platform where
  estimateTokens : List Message → Int
  sha256 : String → String
  toolSummary : String → String
  truncateArguments : String → Nat → String
  deterministicTail : List Message → String
  retainedFacts : String → List CompactionFact
  fleetModelChain : List String
  updateSummary : String → String → List String → Option String
  extractFacts : List Message → List String → List CompactionFact
  protectFirstN : Int

def RETAINED_CONTEXT_MARKER : String := "[RETAINED CONTEXT]"

def SUMMARY_MARKER : String := "[Conversation summary]"

def KEEP_RECENT : Nat := 20

def SHRINK_KEEP_INTACT : Nat := 4

def SHRINK_HEAD_CHARS : Nat := 2000

def TOOL_RESULT_MAX_CHARS : Nat := 2000

def ARGUMENT_MAX_CHARS : Nat := 1000

def SLICE_MAX_CHARS : Nat := 32000

def TOOL_FACT_CHARS : Nat := 1200

def FACT_INPUT_MESSAGES : Nat := 40

/-- `_content_text`. -/
def contentText : Content → String
  | .text s => s
  | .blocks bs => " ".intercalate (bs.filterMap textOf)
  | .none => ""
where
  textOf : Block → Option String
    | .text s => if s = "" then none else some s
    | _ => none

namespace Message

/-- `_is_pinned`. -/
def isPinned (m : Message) : Bool :=
  m.pin = some "active_request" || m.pin = some "live_followup"

/-- `_is_retained_context`. -/
def isRetainedContext (m : Message) : Bool :=
  match m.content with
  | .text s => isIn RETAINED_CONTEXT_MARKER s
  | _ => false

/-- `_is_summary`. -/
def isSummary (m : Message) : Bool :=
  match m.content with
  | .text s => m.role = "user" && startsWith s SUMMARY_MARKER
  | _ => false

/-- The acknowledgement a summary was paired with. -/
def isAck (m : Message) : Bool :=
  match m.content with
  | .text s => m.role = "assistant" && m.toolCalls.isEmpty && startsWith s "Understood"
  | _ => false

end Message

variable (env : Platform)

/-! ## Cutting -/

/-- `protected_prefix_len`. -/
def protectedPrefixLen (ms : List Message) : Nat :=
  if ms.isEmpty then 0 else shrink ms (max 1 (min env.protectFirstN ms.length)).toNat
where
  /-- `while n > 1 and messages[n - 1].get("tool_calls"): n -= 1`. -/
  shrink (ms : List Message) : Nat → Nat
    | n + 2 => if (ms[n + 1]?).any (!·.toolCalls.isEmpty) then shrink ms (n + 1) else n + 2
    | n => n

/-- `_in_tool_exchange`, with the ids of the calls still without their result. -/
def inToolExchange : List String → List Message → List Bool
  | _, [] => []
  | pending, m :: ms =>
    if m.isTool then true :: inToolExchange (pending.filter (· ≠ m.toolCallId)) ms
    else if m.toolCalls.isEmpty then (!pending.isEmpty) :: inToolExchange pending ms
    else true :: inToolExchange m.callIds ms

/-- The pinned messages outside an exchange, and the other ones. -/
def hoist (tail : List Message) : List Message × List Message :=
  let flagged := tail.zip (inToolExchange [] tail)
  ((flagged.filter fun x => x.1.isPinned && !x.2).map (·.1),
    (flagged.filter fun x => !(x.1.isPinned && !x.2)).map (·.1))

/-- `_split_for_summary`: the head with the pinned messages, the retained context and the rest. -/
def splitForSummary (ms : List Message) : List Message × List Message × List Message :=
  let headLen := protectedPrefixLen env ms
  let (active, rest) := hoist (ms.drop headLen)
  (ms.take headLen ++ active, rest.filter (·.isRetainedContext),
    rest.filter (!·.isRetainedContext))

/-- `_find_safe_split_index`. -/
def findSafeSplitIndex (ms : List Message) (targetIdx : Nat) : Nat :=
  if targetIdx = 0 ∨ ms.length ≤ targetIdx then targetIdx else walkBack ms targetIdx
where
  walkBack (ms : List Message) : Nat → Nat
    | 0 => 0
    | idx + 1 => if (ms[idx + 1]?).any (·.isTool) then walkBack ms idx else idx + 1

/-- `_recent_split`. -/
def recentSplit (ms : List Message) (budget : Int) (keepRecent : Nat) : Nat :=
  let start := ms.length - keepRecent
  findSafeSplitIndex ms
    (start + advance (env.estimateTokens (ms.drop start)) budget (ms.drop start))
where
  /-- How far the loop moves `start`, never past the last message. -/
  advance (remaining budget : Int) : List Message → Nat
    | m :: m' :: ms =>
      if remaining > budget then advance (remaining - env.estimateTokens [m]) budget (m' :: ms) + 1
      else 0
    | _ => 0

/-! ## The pre-pass -/

/-- `f` on the messages in front of the protected tail. -/
def beforeTail (protectTail : Nat) (f : List Message → List Message) (ms : List Message) :
    List Message :=
  f (ms.take (ms.length - protectTail)) ++ ms.drop (ms.length - protectTail)

/-- A tool result long enough to be deduplicated, as its text. -/
def longResult (m : Message) : Option String :=
  match m.content with
  | .text s => if m.isTool && s.length > 200 then some s else none
  | _ => none

/-- `_dedup_tool_results`: of identical results the newest stays. -/
def dedupToolResults : List Message → List Message
  | [] => []
  | m :: ms =>
    let later (s : String) := ms.any fun m' => (longResult m').any (env.sha256 · = env.sha256 s)
    (if (longResult m).any later then
      { m with content := .text "[duplicate of a later identical tool result — elided]" }
    else m) :: dedupToolResults ms

/-- `_strip_historical_media`. -/
def stripMedia (m : Message) : Message :=
  match m.content with
  | .blocks bs =>
    { m with content := .blocks (bs.map fun b =>
        if b = .media then .text "[image omitted in compaction]" else b) }
  | _ => m

/-- `_elide_large_tool_results`. -/
def elideLargeToolResult (m : Message) : Message :=
  match m.content with
  | .text s =>
    if m.isTool && s.length > TOOL_RESULT_MAX_CHARS then
      let line := slice ((env.toolSummary s).map fun c => if c = '\n' then ' ' else c) 200
      { m with content := .text ("[tool result elided by compaction: " ++
          groupThousands s.length ++ " chars, ref " ++ m.toolCallId ++ "] " ++ line) }
    else m
  | _ => m

/-- `_truncate_tool_arguments`. -/
def truncateToolArguments (m : Message) : Message :=
  { m with toolCalls := m.toolCalls.map fun call =>
      if call.arguments.length > ARGUMENT_MAX_CHARS then
        { call with arguments := env.truncateArguments call.arguments ARGUMENT_MAX_CHARS }
      else call }

/-- `llm_free_pre_pass`. -/
def llmFreePrePass (ms : List Message) (protectTail : Nat) : List Message :=
  let headLen := protectedPrefixLen env ms
  let body := ms.drop headLen
  let body := beforeTail protectTail (dedupToolResults env) body
  let body := beforeTail protectTail (·.map stripMedia) body
  let body := beforeTail protectTail (·.map (elideLargeToolResult env)) body
  let body := beforeTail protectTail (·.map (truncateToolArguments env)) body
  ms.take headLen ++ body

/-! ## Shrinking -/

/-- What is left of a message that is too large. -/
def shrunkText (text : String) : String :=
  slice text SHRINK_HEAD_CHARS ++ "\n\n[... " ++
    groupThousands (text.length - SHRINK_HEAD_CHARS) ++
    " characters elided by compaction — this result was too large to keep in full]"

/-- The loop of `_shrink_largest` over the indices of `order`. -/
def shrinkLoop (drainTo : Int) : List Message → Nat → List Nat → List Message × Nat
  | out, shrunk, [] => (out, shrunk)
  | out, shrunk, i :: order =>
    if env.estimateTokens out ≤ drainTo then (out, shrunk)
    else
      match out[i]? with
      | none => shrinkLoop drainTo out shrunk order
      | some m =>
        if (contentText m.content).length ≤ SHRINK_HEAD_CHARS then
          shrinkLoop drainTo out shrunk order
        else
          shrinkLoop drainTo
            (out.set i { m with content := .text (shrunkText (contentText m.content)) })
            (shrunk + 1) order

/-- `_shrink_largest`: the biggest messages between the first and the last four lose their end. -/
def shrinkLargest (ms : List Message) (drainTo : Int) : List Message × Nat :=
  let size (i : Nat) := ((ms[i]?).map fun m => (contentText m.content).length).getD 0
  let order := (List.range' 1 (ms.length - SHRINK_KEEP_INTACT - 1)).mergeSort
    fun i j => decide (size j ≤ size i)
  shrinkLoop env drainTo ms 0 order

/-! ## Summarising -/

/-- `_take_previous_summary`, with the summaries one by one. -/
def takePreviousSummary : Bool → List Message → List String × List Message
  | _, [] => ([], [])
  | skipAck, m :: ms =>
    if m.isSummary then
      let (previous, rest) := takePreviousSummary true ms
      (strip (dropSlice (contentText m.content) SUMMARY_MARKER.length) :: previous, rest)
    else if skipAck && m.isAck then takePreviousSummary false ms
    else
      let (previous, rest) := takePreviousSummary false ms
      (previous, m :: rest)

/-- `"\n".join(p for p in previous if p)`. -/
def joinSummaries (previous : List String) : String :=
  "\n".intercalate (previous.filter (· ≠ ""))

/-- What one message contributes to the summary's input. -/
def summaryPart (m : Message) : Option String :=
  let text := contentText m.content
  if text = "" then none
  else if m.role = "user" || m.role = "assistant" then some (m.role ++ ": " ++ slice text 400)
  else if m.role = "tool" then some ("tool: " ++ slice (env.toolSummary text) TOOL_FACT_CHARS)
  else none

/-- `_slice_chunks`. -/
def sliceChunks (ms : List Message) (cap : Int := SLICE_MAX_CHARS) : List String :=
  chunk cap [] 0 (ms.filterMap (summaryPart env))
where
  chunk (cap : Int) (current : List String) (size : Nat) : List String → List String
    | [] => if current.isEmpty then [] else ["\n".intercalate current]
    | part :: parts =>
      if !current.isEmpty && decide (cap < size + part.length + 1) then
        "\n".intercalate current :: chunk cap [part] (part.length + 1) parts
      else chunk cap (current ++ [part]) (size + part.length + 1) parts

/-- `_summary_chain`. -/
def summaryChain (models brokenModels : List String) (preferredModel : Option String) :
    List String :=
  let chain := if models.isEmpty then env.fleetModelChain else models
  let working := chain.filter (· ∉ brokenModels)
  let usable := if working.isEmpty then chain else working
  match preferredModel with
  | some m => if m ∈ usable then m :: usable.filter (· ≠ m) else usable
  | none => usable

/-- The fold over the chunks; `none` where it raises. -/
def summarise (previous : String) (old : List Message) (chain : List String) : Option String :=
  if chain.isEmpty then none
  else
    match (sliceChunks env old).foldlM (env.updateSummary · · chain) previous with
    | some summary => if summary = "" then none else some summary
    | none => none

/-- The facts of the slice, `FACT_INPUT_MESSAGES` messages at a time. -/
def sliceFacts (old : List Message) (chain : List String) : List CompactionFact :=
  (old.toChunks FACT_INPUT_MESSAGES).flatMap (env.extractFacts · chain)

/-- `_merge_retained_facts`. -/
def mergeRetainedFacts (newFacts : List CompactionFact) (retained : List Message) :
    List CompactionFact :=
  let facts := newFacts ++ retained.flatMap fun m =>
    match m.content with
    | .text s => env.retainedFacts s
    | _ => []
  dedup [] facts
where
  dedup (seen : List String) : List CompactionFact → List CompactionFact
    | [] => []
    | fact :: facts =>
      if fact.text ∈ seen then dedup seen facts else fact :: dedup (fact.text :: seen) facts

/-- `_build_retained_context_message`. -/
def buildRetainedContextMessage (facts : List CompactionFact) (ms : List Message) : Message :=
  let sorted := facts.mergeSort fun f g => decide (g.priority ≤ f.priority)
  let lines := sorted.map fun f =>
    "- [" ++ f.category ++ "] (p" ++ toString f.priority ++ ") " ++ f.text
  let tail := env.deterministicTail ms
  { role := "user"
    content := .text ("\n".intercalate (RETAINED_CONTEXT_MARKER :: lines ++
      if ms.isEmpty || tail = "" then [] else [tail])) }

def summaryMessage (summary : String) : Message :=
  { role := "user", content := .text (SUMMARY_MARKER ++ "\n" ++ summary) }

def ackMessage : Message :=
  { role := "assistant"
    content := .text "Understood. I have context from our previous conversation." }

/-! ## `compact` -/

/-- The arguments of `compact` beside the messages. -/
structure CompactArgs where
  models : List String := []
  threshold : Int := 80000
  drainTo : Int := 60000
  brokenModels : List String := []
  preferredModel : Option String := none

/-- Where the slice to summarise ends: the index `compact` cuts `rest` at. -/
def splitIdx (drainTo : Int) (rest : List Message) : Nat :=
  if rest.length > KEEP_RECENT then recentSplit env rest (max 1024 (drainTo / 3)) KEEP_RECENT
  else 0

/-- The messages of `working` that are neither head, retained context nor an earlier summary. -/
def slicedMessages (working : List Message) : List Message :=
  (takePreviousSummary false (splitForSummary env working).2.2).2

/-- The messages `compact` keeps behind its summary. -/
def recentMessages (drainTo : Int) (working : List Message) : List Message :=
  let rest := slicedMessages env working
  rest.drop (splitIdx env drainTo rest)

/-- The head, the facts, the summary and the recent messages. -/
def assembled (ms working : List Message) (drainTo : Int) (facts : List CompactionFact)
    (summary : String) : List Message :=
  (splitForSummary env working).1 ++
    (if facts.isEmpty then [] else [buildRetainedContextMessage env facts ms]) ++
    [summaryMessage summary, ackMessage] ++ recentMessages env drainTo working

/-- The messages `compact` puts in place of `working`. -/
def summarised (ms working : List Message) (drainTo : Int) (facts : List CompactionFact)
    (summary : String) : List Message :=
  let result := assembled env ms working drainTo facts summary
  if env.estimateTokens result > drainTo then (shrinkLargest env result drainTo).1 else result

def compact (ms : List Message) (args : CompactArgs) : CompactionResult :=
  let tokensBefore := env.estimateTokens ms
  if tokensBefore < args.threshold then
    { messages := ms, tokensBefore, tokensAfter := tokensBefore }
  else
    let working := llmFreePrePass env ms KEEP_RECENT
    let est := env.estimateTokens working
    let result (ms : List Message) (passes : Nat) : CompactionResult :=
      { messages := ms, passesUsed := passes, tokensBefore, tokensAfter := env.estimateTokens ms }
    if est < args.drainTo then result working 1
    else if working.length ≤ KEEP_RECENT + 1 then
      let (shrunk, n) := shrinkLargest env working args.drainTo
      if n = 0 && est ≥ tokensBefore then
        { messages := ms, tokensBefore, tokensAfter := tokensBefore }
      else result shrunk 1
    else
      let (_, retained, rest) := splitForSummary env working
      let (previous, rest) := takePreviousSummary false rest
      let old := rest.take (splitIdx env args.drainTo rest)
      if old.isEmpty then result working 1
      else
        let chain := summaryChain env args.models args.brokenModels args.preferredModel
        match summarise env (joinSummaries previous) old chain with
        | none => { result working 1 with degraded := true }
        | some summary =>
          let facts := mergeRetainedFacts env (sliceFacts env old chain) retained
          { result (summarised env ms working args.drainTo facts summary) 3 with
            factsExtracted := facts }

/-! ## `drain_history` -/

/-- The loop of `drain_history` over the messages that may be dropped: exchange by exchange while
too much remains. `inGroup` says that the message before was dropped, so its results go too. -/
def drainLoop (target : Int) : Int → Bool → List Message → List Message
  | _, _, [] => []
  | remaining, inGroup, m :: ms =>
    if (inGroup && m.isTool) || remaining > target then
      drainLoop target (remaining - env.estimateTokens [m]) true ms
    else m :: ms

/-- The last index of a user message. -/
def lastUserIdx (ms : List Message) : Option Nat :=
  (List.range ms.length).reverse.find? fun i => (ms[i]?).any (·.role = "user")

/-- How much of the tail may be dropped: all up to the last user turn, or the last exchange. -/
def keepIdx (tail : List Message) : Nat :=
  (lastUserIdx tail).getD (findSafeSplitIndex tail (tail.length - 1))

def drainHistory (ms : List Message) (target : Int) : List Message :=
  let remaining := env.estimateTokens ms
  if remaining ≤ target then ms
  else
    let (head, retained, tail) := splitForSummary env ms
    let keep := keepIdx tail
    if keep = 0 then ms
    else
      head ++ retained ++ drainLoop env target remaining false (tail.take keep) ++ tail.drop keep

end GenusOs.Engine.Compaction
