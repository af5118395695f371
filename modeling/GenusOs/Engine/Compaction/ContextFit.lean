import GenusOs.Engine.Compaction.PrefixCut
import Mathlib

/-!
# Making a conversation fit

`shrink_to_fit` is the last resort where the messages exceed what the next model may be sent: it
empties old tool results, removes old exchanges, and keeps only the head and the last user turn,
each pass only where the one before it was not enough. The messages are dictionaries, which the
passes copy, rewrite in place and share, so the model has a store of them.

* `Store`: the dictionaries; a list of messages is a list of references.
* `dropToolResults`, `dropToolExchanges`, `truncateToBudget`: the passes.
* `shrinkToFit`: the function.
-/

namespace GenusOs.Engine.Compaction

open GenusOs.Python

/-! ## Dictionaries -/

/-- The dictionaries that were made so far. -/
structure Store where
  next : Nat
  dict : Nat → Message

namespace Store

def alloc (h : Store) (m : Message) : Store × Nat :=
  (⟨h.next + 1, Function.update h.dict h.next m⟩, h.next)

/-- `[dict(m) for m in messages]`. -/
def copy (h : Store) : List Nat → Store × List Nat
  | [] => (h, [])
  | r :: refs =>
    let made := h.alloc (h.dict r)
    let rest := made.1.copy refs
    (rest.1, made.2 :: rest.2)

/-- `message["content"] = content`. -/
def setContent (h : Store) (r : Nat) (content : Content) : Store :=
  { h with dict := Function.update h.dict r { h.dict r with content } }

def values (h : Store) (refs : List Nat) : List Message := refs.map h.dict

end Store

/-! ## Sizes -/

structure Fit where
  model : String
  window : Int
  threshold : Int
  reservedOutput : Int

def Fit.hardLimit (fit : Fit) : Int := max 1 (fit.window - fit.reservedOutput)

/-- `estimate` is `estimate_for` with the model of the fit; `room` is how many characters of a
content an allowance buys. -/
structure Pricing where
  estimate : List Message → Int
  room : Int → String → Nat

/-- `_message_tokens`. -/
def Pricing.messageTokens (price : Pricing) (m : Message) : Int := price.estimate [m]

def Pricing.total (price : Pricing) (ms : List Message) : Int := (ms.map price.messageTokens).sum

def NOTE_TOKENS : Int := 120

def TIGHTEN_PASSES : Nat := 8

def TIGHTEN_SLACK : Int := 32

def TAIL_CHARS : Nat := 200

def CUT : String := "\n[…cut to fit the context window…]\n"

/-- `_DROPPED`. -/
def droppedText (model : String) (chars : Nat) : String :=
  "[tool result dropped to fit the " ++ model ++ " context window: " ++ toString chars ++ " chars]"

/-- `_last_user_index`; `none` for -1. -/
def lastUserIndex (ms : List Message) : Option Nat :=
  (List.range ms.length).reverse.find? fun i => ms[i]?.any (·.role = "user")

/-! ## The passes -/

variable (price : Pricing) (fit : Fit) (keep : Option Nat) (budget : Int)

/-- The loop of `_drop_tool_results`, from message `index` on. -/
def dropToolResults (index : Nat) (h : Store) (total : Int) (dropped : Nat) :
    List Nat → Store × Int × Nat
  | [] => (h, total, dropped)
  | r :: refs =>
    let message := h.dict r
    if total ≤ budget then (h, total, dropped)
    else if some index = keep ∨ message.isTool = false then
      dropToolResults (index + 1) h total dropped refs
    else
      match message.content with
      | .text content =>
        let replacement := droppedText fit.model content.length
        if content = "" ∨ content.length ≤ replacement.length then
          dropToolResults (index + 1) h total dropped refs
        else
          let before := price.messageTokens message
          let h := h.setContent r (.text replacement)
          dropToolResults (index + 1) h (total + price.messageTokens (h.dict r) - before)
            (dropped + 1) refs
      | _ => dropToolResults (index + 1) h total dropped refs

/-- The messages of the exchange that the call at `index` begins, with their places: the call, and
every later result of one of its ids. -/
def group (index : Nat) (call : Message) (later : List Message) : List (Message × Nat) :=
  (call, index) :: (later.zipIdx (index + 1)).filter fun p =>
    p.1.isTool && call.callIds.contains p.1.toolCallId

/-- The loop of `_drop_tool_exchanges`, from message `index` on: the total and the doomed places. -/
def dropLoop (index : Nat) (total : Int) (doomed : Finset Nat) : List Message → Int × Finset Nat
  | [] => (total, doomed)
  | m :: ms =>
    if total ≤ budget then (total, doomed)
    else if some index = keep ∨ m.toolCalls.isEmpty then dropLoop (index + 1) total doomed ms
    else
      let lost := (group index m ms).filter fun p => some p.2 ≠ keep
      dropLoop (index + 1) (total - price.total (lost.map Prod.fst))
        (doomed ∪ (lost.map Prod.snd).toFinset) ms

/-- `[m for i, m in enumerate(messages, index) if i not in doomed]`. -/
def survivors {α : Type} (doomed : Finset Nat) (index : Nat) (l : List α) : List α :=
  ((l.zipIdx index).filter fun p => p.2 ∉ doomed).map Prod.fst

/-- `_drop_tool_exchanges`: the messages that stay, and how many are lost. -/
def dropToolExchanges (h : Store) (head : Nat) (refs : List Nat) : List Nat × Nat :=
  let ms := h.values refs
  let doomed := (dropLoop price keep budget head (price.total ms) ∅ (ms.drop head)).2
  (survivors doomed 0 refs, doomed.card)

/-- `_truncated`. -/
def truncated (h : Store) (r : Nat) (allowance : Int) : Store × Nat :=
  match (h.dict r).content with
  | .text content =>
    let chars := price.room allowance content
    if content.length ≤ chars then (h, r)
    else if chars ≤ CUT.length + TAIL_CHARS then
      h.alloc { h.dict r with content := .text CUT }
    else
      let head := slice content (chars - CUT.length - TAIL_CHARS)
      let tail := dropSlice content (content.length - TAIL_CHARS)
      h.alloc { h.dict r with content := .text (head ++ CUT ++ tail) }
  | _ => (h, r)

/-- The allocation of `_truncate_to_budget`, over the places of `order`. -/
def allocate (h : Store) (kept : List Nat) (remaining : Int) : List Nat → Store × List Nat
  | [] => (h, kept)
  | index :: order =>
    let r := kept.getD index 0
    let cost := price.messageTokens (h.dict r)
    if cost ≤ remaining then allocate h kept (remaining - cost) order
    else
      let cut := truncated price h r remaining
      allocate cut.1 (kept.set index cut.2)
        (max 0 (remaining - price.messageTokens (cut.1.dict cut.2))) order

/-- `max(range(n), key=f)`. -/
def argmax (f : Nat → Int) (n : Nat) : Nat :=
  (List.range n).foldl (fun best i => if f best < f i then i else best) 0

/-- The tightening of `_truncate_to_budget`, for a number of passes. -/
def tighten (h : Store) (kept : List Nat) : Nat → Store × List Nat
  | 0 => (h, kept)
  | passes + 1 =>
    let target := max 0 (budget - TIGHTEN_SLACK)
    let total := price.total (h.values kept)
    if total ≤ target then (h, kept)
    else
      let index := argmax (fun i => price.messageTokens (h.dict (kept.getD i 0))) kept.length
      let r := kept.getD index 0
      let cost := price.messageTokens (h.dict r)
      let cut := truncated price h r (max 0 (cost - (total - target)))
      if cost ≤ price.messageTokens (cut.1.dict cut.2) then (cut.1, kept)
      else tighten cut.1 (kept.set index cut.2) passes

/-- `_truncate_to_budget`. -/
def truncateToBudget (h : Store) (head : Nat) (refs : List Nat) : Store × List Nat :=
  let last := (lastUserIndex (h.values refs)).filter (head ≤ ·)
  let made := h.copy (refs.take head ++ (last.map fun k => refs.getD k 0).toList)
  let kept := made.2
  if kept.isEmpty then made
  else
    let order := if 1 < kept.length then (kept.length - 1) :: List.range (kept.length - 1) else [0]
    let allocated := allocate price made.1 kept budget order
    tighten price budget allocated.1 allocated.2 TIGHTEN_PASSES

/-! ## The whole -/

structure ShrinkOutcome where
  messages : List Nat
  dropped : Nat
  tokensBefore : Int
  tokensAfter : Int
  note : Option String
  fits : Bool

def budgetOf (fit : Fit) : Int := max 1 (fit.hardLimit - NOTE_TOKENS)

def unfitNote (fit : Fit) (after budget : Int) : String :=
  "[SYSTEM] This conversation does not fit " ++ fit.model ++ "'s " ++ toString fit.window ++
    "-token context window and could not be cut down to it (~" ++ toString after ++
    " tokens against a " ++ toString budget ++
    "-token budget). Expect this model to refuse or to silently truncate."

def fitNote (fit : Fit) (dropped : Nat) (before after : Int) : String :=
  "[SYSTEM] This conversation did not fit " ++ fit.model ++ "'s " ++ toString fit.window ++
    "-token context window, so " ++ toString dropped ++
    " older tool result(s) and turn(s) were dropped to make room (~" ++ toString before ++ " → ~" ++
    toString after ++
    " tokens). Anything you still need from earlier, ask for again — do not assume it is above."

def shrinkToFit (env : Platform) (h : Store) (refs : List Nat) : Store × ShrinkOutcome :=
  let before := price.estimate (h.values refs)
  if before ≤ fit.hardLimit then (h, ⟨refs, 0, before, before, none, true⟩)
  else
    let made := h.copy refs
    let working := made.2
    let ms := made.1.values working
    let head := protectedPrefixLen env ms
    let keep := lastUserIndex ms
    let budget := budgetOf fit
    let emptied := dropToolResults price fit keep budget head made.1 (price.total ms) 0
      (working.drop head)
    let h := emptied.1
    let removed := if budget < price.estimate (h.values working) then
      dropToolExchanges price keep budget h head working else (working, 0)
    let cut := if budget < price.estimate (h.values removed.1) then
      truncateToBudget price budget h head removed.1 else (h, removed.1)
    let dropped := emptied.2.2 + removed.2 +
      if budget < price.estimate (h.values removed.1) then 1 else 0
    let after := price.estimate (cut.1.values cut.2)
    if after ≤ budget then
      (cut.1, ⟨cut.2, dropped, before, after, some (fitNote fit dropped before after), true⟩)
    else (cut.1, ⟨cut.2, dropped, before, after, some (unfitNote fit after budget), false⟩)

end GenusOs.Engine.Compaction
