import GenusOs.Engine.Compaction.WellPaired
import GenusOs.Python.JsonText
import Mathlib

/-!
# What the pre-pass does to each message

`llm_free_pre_pass` rewrites the messages between the protected head and the recent tail, each one
on its own but for the dedupe. A text that takes the place of a longer one is meant to be shorter;
two of them are not bounded by it: the stub of unreadable arguments, which escapes what it quotes,
and the reference of an elided result, which carries the id of its call.

* `prePass_getElem?`: what becomes of each message.
* `prePass_shrinks_iff`: when no content and no argument string gets longer.
-/

namespace GenusOs.Engine.Compaction

open GenusOs.Python
open JsonText

/-! ## The arguments of a call -/

def ARGUMENT_VALUE_CHARS : Nat := 200

/-- A value of the arguments, long strings cut. -/
def shortValue : Json → Json
  | .str v =>
    if v.length > ARGUMENT_VALUE_CHARS then
      .str (slice v ARGUMENT_VALUE_CHARS ++ "... [" ++ groupThousands v.length ++
        " chars elided by compaction]")
    else .str v
  | v => v

def shortArguments (parsed : Dict) : Dict := parsed.map fun e => (e.1, shortValue e.2)

/-- What is left of arguments that cannot be cut value by value. -/
def argumentStub (raw : String) (maxChars : Nat) : Dict :=
  [("_elided_by_compaction", .str (slice raw (maxChars / 2))), ("_original_chars", .int raw.length)]

variable (loads : String → Option Json) (floatText : Rat → String)

/-- `_truncate_arguments`; `loads` is `json.loads`, `none` where it raises. -/
def truncateArguments (raw : String) (maxChars : Nat) : String :=
  let stub := Json.dumps floatText (.obj (argumentStub raw maxChars))
  match loads raw with
  | some (.obj parsed) =>
    let text := Json.dumps floatText (.obj (shortArguments parsed))
    if text.length ≤ maxChars then text else stub
  | _ => stub

/-- The platform, with the truncation of arguments as the engine has it. -/
def Platform.withJson (env : Platform) : Platform :=
  { env with truncateArguments := Compaction.truncateArguments loads floatText }

/-- The arguments are an object that is short enough with its long strings cut. -/
def FitsCut (raw : String) : Prop :=
  ∃ parsed, loads raw = some (.obj parsed) ∧
    (Json.dumps floatText (.obj (shortArguments parsed))).length ≤ ARGUMENT_MAX_CHARS

/-- How many characters JSON spends on a text. -/
def escapedLength (cs : List Char) : Nat := (cs.map fun c => (escapeChar c).length).sum

/-- The length of the stub: 50 characters around the quoted start and the size. -/
def stubLength (raw : String) : Nat :=
  50 + escapedLength (raw.toList.take (ARGUMENT_MAX_CHARS / 2)) + (toString raw.length).length

/-- The arguments are short, or can be cut value by value, or their stub is no longer. -/
def ArgumentsShrink (raw : String) : Prop :=
  raw.length ≤ ARGUMENT_MAX_CHARS ∨ FitsCut loads floatText raw ∨ stubLength raw ≤ raw.length

variable {loads floatText} {raw : String}

theorem length_quote (t : String) : (quote t).length = escapedLength t.toList + 2 := by
  unfold quote escapedLength
  rw [List.length_cons, List.length_append, List.length_flatMap]
  rfl

/-- An object of a text and a number. -/
theorem length_dumps_pair (key key' text : String) (n : Int) :
    (Json.dumps floatText (.obj [(key, .str text), (key', .int n)])).length =
      (quote key).length + (quote key').length + escapedLength text.toList +
        (toString n).length + 10 := by
  have htext : (Json.dumps floatText (.obj [(key, .str text), (key', .int n)])).toList =
      '{' :: ((quote key ++ ':' :: ' ' :: quote text) ++ [',', ' '] ++
        (quote key' ++ ':' :: ' ' :: (toString n).toList) ++ ['}']) := by
    rw [Json.dumps, String.toList_ofList]
    simp [Json.spacedText, Json.spacedEntries, Json.text, List.intercalate]
  rw [← String.length_toList, htext]
  simp only [List.length_cons, List.length_append, List.length_nil, length_quote text,
    String.length_toList]
  omega

theorem length_stub : (Json.dumps floatText (.obj (argumentStub raw ARGUMENT_MAX_CHARS))).length =
    stubLength raw := by
  have hfirst : (quote "_elided_by_compaction").length = 23 := by decide
  have hsecond : (quote "_original_chars").length = 17 := by decide
  have hdigits : toString (raw.length : Int) = toString raw.length := rfl
  unfold argumentStub
  rw [length_dumps_pair, hfirst, hsecond, hdigits]
  simp only [slice, String.toList_ofList, stubLength]
  omega

/-- **Arguments that are too long shrink, exactly where they can be cut or their stub is shorter.**
-/
theorem truncateArguments_shrinks_iff (hlong : ARGUMENT_MAX_CHARS < raw.length) :
    (truncateArguments loads floatText raw ARGUMENT_MAX_CHARS).length ≤ raw.length ↔
      ArgumentsShrink loads floatText raw := by
  have hnot : ¬ raw.length ≤ ARGUMENT_MAX_CHARS := not_le.mpr hlong
  have hstub (hcut : ¬ FitsCut loads floatText raw) :
      (truncateArguments loads floatText raw ARGUMENT_MAX_CHARS).length = stubLength raw := by
    unfold truncateArguments
    dsimp only
    split
    · next parsed hparsed =>
      rw [if_neg fun hfits => hcut ⟨parsed, hparsed, hfits⟩, length_stub]
    · exact length_stub
  unfold ArgumentsShrink
  by_cases hcut : FitsCut loads floatText raw
  · refine ⟨fun _ => .inr (.inl hcut), fun _ => ?_⟩
    obtain ⟨parsed, hparsed, hfits⟩ := hcut
    unfold truncateArguments
    simp only [hparsed, if_pos hfits]
    exact hfits.trans hlong.le
  · rw [hstub hcut, or_iff_right hnot, or_iff_right hcut]

/-- What is put in place of arguments is an object again. -/
theorem truncateArguments_object (maxChars : Nat) : ∃ d : Dict,
    truncateArguments loads floatText raw maxChars = Json.dumps floatText (.obj d) := by
  unfold truncateArguments
  dsimp only
  split
  · split
    · exact ⟨_, rfl⟩
    · exact ⟨_, rfl⟩
  · exact ⟨_, rfl⟩

/-! ## The messages between head and tail -/

variable {env : Platform} {ms ns l : List Message} {m n : Message} {i k : Nat}

theorem shrink_le (n : Nat) : protectedPrefixLen.shrink ms n ≤ n := by
  induction n with
  | zero => exact le_rfl
  | succ n ih =>
    cases n with
    | zero => exact le_rfl
    | succ n =>
      rw [protectedPrefixLen.shrink]
      split
      · exact ih.trans (Nat.le_succ _)
      · exact le_rfl

theorem protectedPrefixLen_le (env : Platform) (ms : List Message) :
    protectedPrefixLen env ms ≤ ms.length := by
  unfold protectedPrefixLen
  split
  · exact Nat.zero_le _
  · next hne =>
    have hpos : 0 < ms.length := List.length_pos_of_ne_nil (mt List.isEmpty_iff.mpr hne)
    exact (shrink_le _).trans (by omega)

theorem length_of_map {β : Type} {g : Message → β} (h : ns.map g = ms.map g) :
    ns.length = ms.length := by
  simpa using congrArg List.length h

theorem length_dedup (l : List Message) : (dedupToolResults env l).length = l.length :=
  length_of_map (@map_dedup env Unit (fun _ => ()) (fun _ _ => rfl) l)

theorem drop_prePass : (llmFreePrePass env ms k).drop (protectedPrefixLen env ms) =
    beforeTail k (·.map (truncateToolArguments env)) (beforeTail k
      (·.map (elideLargeToolResult env)) (beforeTail k (·.map stripMedia)
        (beforeTail k (dedupToolResults env) (tailOf env ms)))) := by
  unfold llmFreePrePass
  refine List.drop_left' ?_
  rw [List.length_take]
  exact min_eq_left (protectedPrefixLen_le env ms)

theorem take_prePass : (llmFreePrePass env ms k).take (protectedPrefixLen env ms) =
    ms.take (protectedPrefixLen env ms) := by
  unfold llmFreePrePass
  refine List.take_left' ?_
  rw [List.length_take]
  exact min_eq_left (protectedPrefixLen_le env ms)

/-- The message lies behind the protected head and in front of the last `k`. -/
def IsOld (env : Platform) (ms : List Message) (k i : Nat) : Prop :=
  protectedPrefixLen env ms ≤ i ∧ i + k < ms.length

/-- A result among `later` has the text of this one. -/
def isRepeated (env : Platform) (later : List Message) (m : Message) : Bool :=
  (longResult m).any fun s => later.any fun m' =>
    (longResult m').any (env.sha256 · = env.sha256 s)

def pointerText : String := "[duplicate of a later identical tool result — elided]"

/-- The message after the dedupe. -/
def deduped (env : Platform) (later : List Message) (m : Message) : Message :=
  if isRepeated env later m then { m with content := .text pointerText } else m

/-- What the pre-pass makes of an old message, with the old ones behind it. -/
def rewritten (env : Platform) (later : List Message) (m : Message) : Message :=
  truncateToolArguments env (elideLargeToolResult env (stripMedia (deduped env later m)))

theorem dedup_getElem? (l : List Message) (i : Nat) :
    (dedupToolResults env l)[i]? = (l[i]?).map (deduped env (l.drop (i + 1))) := by
  induction l generalizing i with
  | nil => rfl
  | cons m l ih =>
    cases i with
    | zero => rfl
    | succ i => exact ih i

theorem beforeTail_getElem? {f : List Message → List Message}
    (hlen : ∀ l, (f l).length = l.length) :
    (beforeTail k f l)[i]? =
      if i + k < l.length then (f (l.take (l.length - k)))[i]? else l[i]? := by
  unfold beforeTail
  have hfront : (f (l.take (l.length - k))).length = l.length - k := by
    rw [hlen, List.length_take]
    omega
  split
  · exact List.getElem?_append_left (by omega)
  · rw [List.getElem?_append_right (by omega), hfront, List.getElem?_drop]
    congr 1
    omega

theorem beforeTail_map_getElem? (f : Message → Message) :
    (beforeTail k (·.map f) l)[i]? = if i + k < l.length then (l[i]?).map f else l[i]? := by
  rw [beforeTail_getElem? fun _ => List.length_map _]
  split
  · rw [List.getElem?_map, List.getElem?_take_of_lt (by omega)]
  · rfl

theorem length_beforeTail {f : List Message → List Message}
    (hlen : ∀ l, (f l).length = l.length) (l : List Message) :
    (beforeTail k f l).length = l.length := by
  unfold beforeTail
  rw [List.length_append, hlen, ← List.length_append, List.take_append_drop]

/-- **What the pre-pass makes of each message.** -/
theorem prePass_getElem? (env : Platform) (ms : List Message) (k i : Nat) :
    (IsOld env ms k i → (llmFreePrePass env ms k)[i]? =
      (ms[i]?).map (rewritten env ((ms.take (ms.length - k)).drop (i + 1)))) ∧
    (¬ IsOld env ms k i → (llmFreePrePass env ms k)[i]? = ms[i]?) := by
  have hhead : (ms.take (protectedPrefixLen env ms)).length = protectedPrefixLen env ms := by
    rw [List.length_take]
    exact min_eq_left (protectedPrefixLen_le env ms)
  by_cases hi : protectedPrefixLen env ms ≤ i
  · obtain ⟨j, rfl⟩ := Nat.exists_eq_add_of_le hi
    have hbody (f : Message → Message) (l : List Message) :
        (beforeTail k (·.map f) l).length = l.length :=
          length_beforeTail (fun _ => List.length_map _) l
    have hold : IsOld env ms k (protectedPrefixLen env ms + j) ↔
        j + k < (tailOf env ms).length := by
      unfold IsOld tailOf
      rw [List.length_drop]
      omega
    have hget : (llmFreePrePass env ms k)[protectedPrefixLen env ms + j]? =
        ((llmFreePrePass env ms k).drop (protectedPrefixLen env ms))[j]? :=
      List.getElem?_drop.symm
    have htail : ms[protectedPrefixLen env ms + j]? = (tailOf env ms)[j]? := List.getElem?_drop.symm
    rw [hold, hget, htail, drop_prePass, beforeTail_map_getElem?, beforeTail_map_getElem?,
      beforeTail_map_getElem?, beforeTail_getElem? length_dedup, hbody, hbody,
      length_beforeTail length_dedup]
    refine ⟨fun hj => ?_, fun hj => ?_⟩
    · rw [if_pos hj, if_pos hj, if_pos hj, if_pos hj, dedup_getElem?,
        List.getElem?_take_of_lt (by omega)]
      have hlater : ((tailOf env ms).take ((tailOf env ms).length - k)).drop (j + 1) =
          (ms.take (ms.length - k)).drop (protectedPrefixLen env ms + j + 1) := by
        unfold tailOf at hj ⊢
        rw [List.length_drop] at hj ⊢
        rw [List.take_drop, List.drop_drop, ← Nat.add_assoc,
          show protectedPrefixLen env ms + (ms.length - protectedPrefixLen env ms - k) =
            ms.length - k by omega]
      rw [hlater]
      cases (tailOf env ms)[j]? <;> rfl
    · rw [if_neg hj, if_neg hj, if_neg hj, if_neg hj]
  · refine ⟨fun hold => absurd hold.1 hi, fun _ => ?_⟩
    unfold llmFreePrePass
    rw [List.getElem?_append_left (by omega), List.getElem?_take_of_lt (by omega)]

/-! ## Sizes -/

def IMAGE_CHARS_EQUIV : Nat := 6000

/-- The size of a block; `other` is that of one that is neither text nor image. -/
def blockChars (other : Nat) : Block → Nat
  | .text s => s.length
  | .media => IMAGE_CHARS_EQUIV
  | .other => other

/-- `_content_chars`. -/
def contentChars (other : Nat) : Content → Nat
  | .text s => s.length
  | .blocks bs => (bs.map (blockChars other)).sum
  | .none => 0

/-- The length of the reference that an elided result becomes: 49 characters around its size, the id
of its call and at most 200 characters of its summary. -/
def elidedLength (env : Platform) (m : Message) (s : String) : Nat :=
  49 + (groupThousands s.length).length + m.toolCallId.length + min 200 (env.toolSummary s).length

/-- A large result that no later one repeats has room for its reference. -/
def ElisionShrinks (env : Platform) (later : List Message) (m : Message) : Prop :=
  ∀ s, m.content = .text s → m.isTool = true → TOOL_RESULT_MAX_CHARS < s.length →
    isRepeated env later m = false → elidedLength env m s ≤ s.length

theorem content_truncate (m : Message) : (truncateToolArguments env m).content = m.content := rfl

theorem contentChars_elide (other : Nat) {s : String} (hs : m.content = .text s)
    (ht : m.isTool = true) (hlong : TOOL_RESULT_MAX_CHARS < s.length) :
    contentChars other (elideLargeToolResult env m).content = elidedLength env m s := by
  have hfirst : "[tool result elided by compaction: ".length = 35 := by decide
  have hsecond : " chars, ref ".length = 12 := by decide
  have hthird : "] ".length = 2 := by decide
  unfold elideLargeToolResult
  rw [hs]
  dsimp only
  rw [ht, Bool.true_and, if_pos (decide_eq_true hlong)]
  simp only [contentChars, String.length_append, hfirst, hsecond, hthird, slice,
    String.length_ofList, List.length_take, String.length_toList, String.length_map, elidedLength]
  omega

/-- Anything but a large result is not elided. -/
theorem elide_eq_self (h : ∀ s, m.content = .text s → m.isTool = true →
    s.length ≤ TOOL_RESULT_MAX_CHARS) : elideLargeToolResult env m = m := by
  unfold elideLargeToolResult
  split
  · next s hs =>
    by_cases ht : m.isTool = true
    · rw [if_neg (by simpa [ht] using h s hs ht)]
    · rw [if_neg (by simp [ht])]
  · rfl

theorem stripMedia_text {s : String} (hs : m.content = .text s) : stripMedia m = m := by
  unfold stripMedia
  rw [hs]

/-- The placeholder is smaller than any image. -/
theorem contentChars_stripMedia (other : Nat) (m : Message) :
    contentChars other (stripMedia m).content ≤ contentChars other m.content := by
  unfold stripMedia
  split
  · next bs hbs =>
    rw [hbs]
    simp only [contentChars, List.map_map]
    refine List.sum_le_sum fun b _ => ?_
    rw [Function.comp_apply]
    split
    · next hb =>
      rw [hb]
      exact of_decide_eq_true rfl
    · exact le_rfl
  · exact le_rfl

/-- What is repeated is a long text. -/
theorem text_of_isRepeated {later : List Message} (h : isRepeated env later m = true) :
    ∃ s, m.content = .text s ∧ 200 < s.length := by
  unfold isRepeated at h
  cases hlong : longResult m with
  | none =>
    rw [hlong] at h
    cases h
  | some s =>
    unfold longResult at hlong
    split at hlong
    · next t ht =>
      split at hlong
      · next hcond =>
        exact ⟨t, ht, of_decide_eq_true (Bool.and_eq_true_iff.mp hcond).2⟩
      · cases hlong
    · cases hlong

/-- **No content gets longer but a large result whose reference has no room.** -/
theorem contentChars_rewritten_iff (other : Nat) (later : List Message) :
    contentChars other (rewritten env later m).content ≤ contentChars other m.content ↔
      ElisionShrinks env later m := by
  unfold rewritten deduped
  rw [content_truncate]
  by_cases hrep : isRepeated env later m = true
  · obtain ⟨s, hs, hlen⟩ := text_of_isRepeated hrep
    have hpointer : pointerText.length = 53 := by decide
    refine iff_of_true ?_ fun _ _ _ _ hnot => absurd hrep (by rw [hnot]; exact Bool.false_ne_true)
    rw [if_pos hrep, stripMedia_text rfl, elide_eq_self, hs]
    · simp only [contentChars, hpointer]
      omega
    · rintro t ht -
      rw [← Content.text.inj ht, hpointer]
      decide
  · rw [if_neg hrep]
    have hrep : isRepeated env later m = false := Bool.eq_false_iff.mpr hrep
    by_cases hlarge : ∃ s, m.content = .text s ∧ m.isTool = true ∧ TOOL_RESULT_MAX_CHARS < s.length
    · obtain ⟨s, hs, ht, hlong⟩ := hlarge
      rw [stripMedia_text hs, contentChars_elide other hs ht hlong, hs]
      refine ⟨fun hle t htext _ _ _ => ?_, fun hall => hall s hs ht hlong hrep⟩
      obtain rfl := Content.text.inj (hs.symm.trans htext)
      exact hle
    · have hsmall : ∀ s, m.content = .text s → m.isTool = true → s.length ≤ TOOL_RESULT_MAX_CHARS :=
        fun s hs ht => not_lt.mp fun hlong => hlarge ⟨s, hs, ht, hlong⟩
      refine iff_of_true ?_ fun s hs ht hlong _ => absurd hlong (not_lt.mpr (hsmall s hs ht))
      have hkeep : elideLargeToolResult env (stripMedia m) = stripMedia m := by
        refine elide_eq_self fun s hs ht => ?_
        cases hcontent : m.content with
        | text t =>
          rw [stripMedia_text hcontent] at hs ht
          exact hsmall s hs ht
        | blocks bs =>
          unfold stripMedia at hs
          rw [hcontent] at hs
          cases hs
        | none =>
          unfold stripMedia at hs
          rw [hcontent, hcontent] at hs
          cases hs
      rw [hkeep]
      exact contentChars_stripMedia other m

/-! ## The law of the pre-pass -/

/-- The arguments of one call, before and after. -/
structure CallShrinks (loads : String → Option Json) (before after : ToolCall) : Prop where
  parseable : (loads before.arguments).isSome = true → (loads after.arguments).isSome = true
  shorter : after.arguments.length ≤ before.arguments.length

/-- A message before and after. -/
structure MessageShrinks (loads : String → Option Json) (before after : Message) : Prop where
  content : ∀ other, contentChars other after.content ≤ contentChars other before.content
  calls : List.Forall₂ (CallShrinks loads) before.toolCalls after.toolCalls

/-- The head and the last `k` messages are as they were, and so are the number, the roles, the order
and the ids of all; nothing is longer. -/
structure OnlyShrinks (env : Platform) (loads : String → Option Json) (k : Nat)
    (before after : List Message) : Prop where
  head : after.take (protectedPrefixLen env before) = before.take (protectedPrefixLen env before)
  tail : after.drop (before.length - k) = before.drop (before.length - k)
  shape : after.map Message.shape = before.map Message.shape
  messages : List.Forall₂ (MessageShrinks loads) before after

theorem MessageShrinks.refl (loads : String → Option Json) (m : Message) :
    MessageShrinks loads m m where
  content _ := le_rfl
  calls := List.forall₂_same.mpr fun _ _ => ⟨id, le_rfl⟩

/-- The arguments of a call after the pre-pass. -/
def shortCall (loads : String → Option Json) (floatText : Rat → String) (call : ToolCall) :
    ToolCall :=
  if call.arguments.length > ARGUMENT_MAX_CHARS then
    { call with
      arguments := truncateArguments loads floatText call.arguments ARGUMENT_MAX_CHARS }
  else call

theorem callShrinks_iff
    (hloads : ∀ d : Dict, (loads (Json.dumps floatText (.obj d))).isSome = true) (call : ToolCall) :
    CallShrinks loads call (shortCall loads floatText call) ↔
      ArgumentsShrink loads floatText call.arguments := by
  unfold shortCall
  split
  · next hlong =>
    rw [← truncateArguments_shrinks_iff hlong]
    refine ⟨fun h => h.shorter, fun h => ⟨fun _ => ?_, h⟩⟩
    obtain ⟨d, hd⟩ := @truncateArguments_object loads floatText call.arguments ARGUMENT_MAX_CHARS
    rw [hd]
    exact hloads d
  · next hshort => exact iff_of_true ⟨id, le_rfl⟩ (.inl (not_lt.mp hshort))

theorem messageShrinks_iff
    (hloads : ∀ d : Dict, (loads (Json.dumps floatText (.obj d))).isSome = true)
    (later : List Message) (m : Message) :
    MessageShrinks loads m (rewritten (env.withJson loads floatText) later m) ↔
      ElisionShrinks (env.withJson loads floatText) later m ∧
        ∀ call ∈ m.toolCalls, ArgumentsShrink loads floatText call.arguments := by
  have hcalls : (rewritten (env.withJson loads floatText) later m).toolCalls =
      m.toolCalls.map (shortCall loads floatText) := by
    have hkept : (elideLargeToolResult (env.withJson loads floatText) (stripMedia
        (deduped (env.withJson loads floatText) later m))).toolCalls = m.toolCalls := by
      rw [kept_elide (g := (·.toolCalls)) fun _ _ => rfl,
        kept_stripMedia (g := (·.toolCalls)) fun _ _ => rfl]
      unfold deduped
      split <;> rfl
    unfold rewritten truncateToolArguments
    rw [hkept]
    rfl
  constructor
  · intro h
    refine ⟨(contentChars_rewritten_iff 0 later).mp (h.content 0), fun call hcall => ?_⟩
    have hall := h.calls
    rw [hcalls, List.forall₂_map_right_iff, List.forall₂_same] at hall
    exact (callShrinks_iff hloads call).mp (hall call hcall)
  · rintro ⟨hcontent, hargs⟩
    refine ⟨fun other => (contentChars_rewritten_iff other later).mpr hcontent, ?_⟩
    rw [hcalls, List.forall₂_map_right_iff, List.forall₂_same]
    exact fun call hcall => (callShrinks_iff hloads call).mpr (hargs call hcall)

/-- The old messages behind the one at `i`. -/
def olderBehind (ms : List Message) (k i : Nat) : List Message :=
  (ms.take (ms.length - k)).drop (i + 1)

/-- What has shrunk could shrink. -/
theorem OnlyShrinks.old
    (hloads : ∀ d : Dict, (loads (Json.dumps floatText (.obj d))).isSome = true)
    (h : OnlyShrinks env loads k ms (llmFreePrePass (env.withJson loads floatText) ms k))
    (hold : IsOld env ms k i) (hm : ms[i]? = some m) :
    ElisionShrinks (env.withJson loads floatText) (olderBehind ms k i) m ∧
      ∀ call ∈ m.toolCalls, ArgumentsShrink loads floatText call.arguments := by
  obtain ⟨hi, rfl⟩ := List.getElem?_eq_some_iff.mp hm
  have hget := (prePass_getElem? (env.withJson loads floatText) ms k i).1 hold
  rw [hm, Option.map_some] at hget
  obtain ⟨hi', heq⟩ := List.getElem?_eq_some_iff.mp hget
  have hshrinks := (List.forall₂_iff_get.mp h.messages).2 i hi hi'
  rw [List.get_eq_getElem, List.get_eq_getElem, heq] at hshrinks
  exact (messageShrinks_iff hloads _ _).mp hshrinks

/-- **The pre-pass only shrinks**, exactly where each old result has room for its reference, and
each old call's arguments can be cut or replaced by something shorter. -/
theorem prePass_shrinks_iff (env : Platform) (ms : List Message) (k : Nat)
    (hloads : ∀ d : Dict, (loads (Json.dumps floatText (.obj d))).isSome = true) :
    OnlyShrinks env loads k ms (llmFreePrePass (env.withJson loads floatText) ms k) ↔
      ∀ i m, IsOld env ms k i → ms[i]? = some m →
        ElisionShrinks (env.withJson loads floatText) (olderBehind ms k i) m ∧
          ∀ call ∈ m.toolCalls, ArgumentsShrink loads floatText call.arguments := by
  have hlen : (llmFreePrePass (env.withJson loads floatText) ms k).length = ms.length :=
    length_of_map (shape_prePass k)
  constructor
  · exact fun h i m hold hm => h.old hloads hold hm
  · intro h
    have hhead : (llmFreePrePass (env.withJson loads floatText) ms k).take
        (protectedPrefixLen (env.withJson loads floatText) ms) = _ := take_prePass
    refine ⟨hhead, ?_, shape_prePass k, List.forall₂_iff_get.mpr ⟨hlen.symm, ?_⟩⟩
    · refine List.ext_getElem? fun i => ?_
      rw [List.getElem?_drop, List.getElem?_drop]
      refine (prePass_getElem? (env.withJson loads floatText) ms k _).2 fun hold => ?_
      have := hold.2
      omega
    · intro i hi hi'
      rw [List.get_eq_getElem, List.get_eq_getElem]
      obtain ⟨hrewritten, hkept⟩ := prePass_getElem? (env.withJson loads floatText) ms k i
      rw [List.getElem?_eq_getElem hi, List.getElem?_eq_getElem hi'] at hrewritten hkept
      by_cases hold : IsOld env ms k i
      · rw [Option.some.inj (hrewritten hold)]
        exact (messageShrinks_iff hloads _ _).mpr (h i ms[i] hold (List.getElem?_eq_getElem hi))
      · rw [Option.some.inj (hkept hold)]
        exact .refl loads _

/-- A reader that accepts what begins like an object. -/
def readsObjects (raw : String) : Option Json :=
  if raw.toList.head? = some '{' then some (.obj []) else none

theorem readsObjects_dumps (d : Dict) :
    (readsObjects (Json.dumps floatText (.obj d))).isSome = true := by
  unfold readsObjects Json.dumps
  rw [String.toList_ofList, if_pos (by rw [Json.spacedText]; rfl)]
  rfl

/-- A conversation whose fourth message, behind the protected head, makes a call with these
arguments. -/
def callOf (arguments : String) : List Message :=
  [{ role := "system", content := .text "You are an agent." },
    { role := "user", content := .text "Write the report." },
    { role := "assistant", content := .text "On it." },
    { role := "assistant", toolCalls := [{ id := "c1", arguments }] },
    { role := "tool", toolCallId := "c1", content := .text "ok" }]

/-- `n` times the character `c`, which no reader takes for JSON. -/
def scribble (c : Char) (n : Nat) : String := String.ofList (List.replicate n c)

theorem stubLength_scribble (c : Char) :
    stubLength (scribble c 1001) = 54 + 500 * (escapeChar c).length := by
  have hlen : (scribble c 1001).length = 1001 := by
    rw [scribble, String.length_ofList, List.length_replicate]
  have hdigits : (toString 1001).length = 4 := by decide
  have htake : (scribble c 1001).toList.take (ARGUMENT_MAX_CHARS / 2) = List.replicate 500 c := by
    rw [scribble, String.toList_ofList, List.take_replicate]
    rfl
  unfold stubLength escapedLength
  rw [htake, hlen, hdigits, List.map_replicate, List.sum_replicate, smul_eq_mul]
  omega

theorem scribble_iff {c : Char} (hc : c ≠ '{') :
    ArgumentsShrink readsObjects floatText (scribble c 1001) ↔
      54 + 500 * (escapeChar c).length ≤ 1001 := by
  have hlen : (scribble c 1001).length = 1001 := by
    rw [scribble, String.length_ofList, List.length_replicate]
  have hcut : ¬ FitsCut readsObjects floatText (scribble c 1001) := by
    rintro ⟨parsed, hparsed, -⟩
    unfold readsObjects at hparsed
    rw [scribble, String.toList_ofList, List.replicate_succ, List.head?_cons,
      if_neg fun h => hc (Option.some.inj h)] at hparsed
    cases hparsed
  unfold ArgumentsShrink
  rw [hlen, stubLength_scribble, or_iff_right (by decide), or_iff_right hcut]

theorem callOf_old (k : Nat) (hk : k < 2) (arguments : String) :
    IsOld plainPlatform (callOf arguments) k 3 := by
  refine ⟨?_, by simp [callOf]; omega⟩
  exact (show protectedPrefixLen plainPlatform (callOf arguments) = 3 from rfl).le

/-- The stub of 1,001 letters is shorter than they are. -/
theorem letters_shrink :
    OnlyShrinks plainPlatform readsObjects 1 (callOf (scribble 'x' 1001))
      (llmFreePrePass (plainPlatform.withJson readsObjects fun _ => "0.5")
        (callOf (scribble 'x' 1001)) 1) := by
  refine (prePass_shrinks_iff plainPlatform _ 1 readsObjects_dumps).mpr fun i m hold hm => ?_
  obtain rfl : i = 3 := by
    have hhead : 3 ≤ i := hold.1
    have htail : i + 1 < 5 := hold.2
    omega
  obtain rfl := Option.some.inj hm
  refine ⟨nofun, fun call hcall => ?_⟩
  rw [List.mem_singleton.mp hcall, scribble_iff (by decide)]
  decide

/-- The stub of 1,001 accented letters is three times as long as they are. -/
theorem escaped_stub_grows :
    ¬ ∀ (env : Platform) (loads : String → Option Json) (floatText : Rat → String)
      (ms : List Message) (k : Nat),
      (∀ d : Dict, (loads (Json.dumps floatText (.obj d))).isSome = true) →
        OnlyShrinks env loads k ms (llmFreePrePass (env.withJson loads floatText) ms k) := by
  intro h
  have hshrinks := h plainPlatform readsObjects (fun _ => "0.5") (callOf (scribble 'é' 1001)) 0
    readsObjects_dumps
  have hcall := (hshrinks.old readsObjects_dumps (callOf_old 0 (by decide) _) rfl).2 _
    (List.mem_singleton.mpr rfl)
  rw [scribble_iff (by decide)] at hcall
  exact absurd hcall (by decide)

end GenusOs.Engine.Compaction
