import GenusOs.Engine.Compaction.WellPaired
import GenusOs.Library.Packing
import Mathlib

/-!
# The summary's input covers the history

`_slice_chunks` is greedy packing of the previews, a newline between two of one chunk.

* `sliceChunks_eq_pack`: the chunks are the packed groups, joined.
* `slices_cover_within_cap`: within a cap that holds each preview alone, every chunk is within the
  cap, and the chunks hold one preview per user, assistant and tool message with text, in message
  order.
-/

namespace GenusOs.Engine.Compaction

open GenusOs.Python

variable (env : Platform) {ms : List Message} {cap : Int}

namespace Message

/-- A user, assistant or tool message with text. -/
def isSummarised (m : Message) : Bool :=
  contentText m.content ≠ "" && (m.role = "user" || m.role = "assistant" || m.role = "tool")

/-- The preview of a summarised message: the head of its prose, or of the result's summary. -/
def preview (m : Message) : String :=
  let text := contentText m.content
  m.role ++ ": " ++
    if m.role = "tool" then slice (env.toolSummary text) TOOL_FACT_CHARS else slice text 400

end Message

theorem summaryPart_eq (m : Message) :
    summaryPart env m = if m.isSummarised then some (m.preview env) else none := by
  unfold summaryPart Message.isSummarised Message.preview
  by_cases htext : contentText m.content = ""
  · simp [htext]
  · by_cases htool : m.role = "tool"
    · simp [htext, htool]
    · simp [htext, htool, String.append_assoc]

theorem filterMap_summaryPart (ms : List Message) :
    ms.filterMap (summaryPart env) = (ms.filter (·.isSummarised)).map (·.preview env) := by
  induction ms with
  | nil => rfl
  | cons m ms ih =>
    rw [List.filterMap_cons, summaryPart_eq]
    by_cases hm : m.isSummarised = true
    · simp [hm, ih]
    · simp [hm, ih]

/-- A part with its newline. -/
def partSize (part : String) : Nat := part.length + 1

theorem chunk_eq_pack (cap : Int) (current : List String) (size : Nat) (parts : List String) :
    sliceChunks.chunk cap current size parts =
      (pack partSize cap current size parts).map ("\n".intercalate ·) := by
  induction parts generalizing current size with
  | nil =>
    cases current with
    | nil => rfl
    | cons part parts => rfl
  | cons part parts ih =>
    have hsize : (size : Int) + part.length + 1 = size + partSize part := by
      rw [partSize]
      push_cast
      ring
    rw [sliceChunks.chunk, pack, hsize]
    split
    · rw [ih]
      rfl
    · rw [ih]
      rfl

/-- **The chunks are the packed previews.** -/
theorem sliceChunks_eq_pack (ms : List Message) (cap : Int) :
    sliceChunks env ms cap =
      (pack partSize cap [] 0 ((ms.filter (·.isSummarised)).map (·.preview env))).map
        ("\n".intercalate ·) := by
  rw [sliceChunks, filterMap_summaryPart, chunk_eq_pack]

theorem length_join (part : String) (parts : List String) :
    ("\n".intercalate (part :: parts)).length + 1 = ((part :: parts).map partSize).sum := by
  induction parts generalizing part with
  | nil => simp [partSize]
  | cons next parts ih =>
    have hjoin : "\n".intercalate (part :: next :: parts) =
        part ++ "\n" ++ "\n".intercalate (next :: parts) := by
      simp [String.intercalate_cons_cons]
    have hnext := ih next
    rw [hjoin, List.map_cons, List.sum_cons, ← hnext, String.length_append, String.length_append]
    show part.length + 1 + _ + 1 = part.length + 1 + _
    omega

/-- A group that fits, joined, is within the capacity. -/
theorem length_join_le {group : List String} (hne : group ≠ []) (hfits : Fits partSize cap group)
    (hparts : ∀ part ∈ group, (part.length : Int) ≤ cap) :
    (("\n".intercalate group).length : Int) ≤ cap := by
  cases group with
  | nil => exact absurd rfl hne
  | cons part parts =>
    have hjoin := length_join part parts
    rcases hfits with hone | hsum
    · obtain rfl : parts = [] := by simpa using hone
      simpa using hparts part
    · rw [← hjoin] at hsum
      push_cast at hsum
      omega

theorem flatten_pack_previews (ms : List Message) (cap : Int) :
    (pack partSize cap [] 0 ((ms.filter (·.isSummarised)).map (·.preview env))).flatten =
      (ms.filter (·.isSummarised)).map (·.preview env) := Packing.flatten_pack [] 0 _

theorem length_chunk_le {chunk : String}
    (hcap : ∀ m ∈ ms, m.isSummarised = true → ((m.preview env).length : Int) ≤ cap)
    (h : chunk ∈ sliceChunks env ms cap) : (chunk.length : Int) ≤ cap := by
  rw [sliceChunks_eq_pack] at h
  obtain ⟨group, hgroup, rfl⟩ := List.mem_map.mp h
  refine length_join_le (Packing.ne_nil_of_mem_pack hgroup)
    (Packing.fits_of_mem_pack rfl (fun hnil => absurd rfl hnil) hgroup) (fun part hpart => ?_)
  -- every part of a group is some message's preview
  have hmem : part ∈ (ms.filter (·.isSummarised)).map (·.preview env) := by
    rw [← flatten_pack_previews env ms cap]
    exact List.mem_flatten.mpr ⟨group, hgroup, hpart⟩
  obtain ⟨m, hm, rfl⟩ := List.mem_map.mp hmem
  obtain ⟨hms, hsummarised⟩ := List.mem_filter.mp hm
  exact hcap m hms hsummarised

/-- **Summary slices cover the history.** The chunks are groups of previews joined by newlines, the
groups end to end are one preview per summarised message in message order, and each chunk is within
a cap that holds every preview alone. -/
theorem slices_cover_within_cap
    (hcap : ∀ m ∈ ms, m.isSummarised = true → ((m.preview env).length : Int) ≤ cap) :
    ∃ groups : List (List String),
      sliceChunks env ms cap = groups.map ("\n".intercalate ·) ∧
      groups.flatten = (ms.filter (·.isSummarised)).map (·.preview env) ∧
      (∀ group ∈ groups, group ≠ []) ∧
      ∀ chunk ∈ sliceChunks env ms cap, (chunk.length : Int) ≤ cap :=
  ⟨_, sliceChunks_eq_pack env ms cap, flatten_pack_previews env ms cap,
    fun _ => Packing.ne_nil_of_mem_pack, fun _ => length_chunk_le env hcap⟩

def shortTalk : List Message :=
  [{ role := "system", content := .text "You are an agent." },
    { role := "user", content := .text "Hello." },
    { role := "assistant", content := .text "Hi." },
    { role := "tool", content := .text "done" }]

/-- Previews of 12, 14 and 10 characters. -/
theorem short_talk_sliced :
    ∃ groups : List (List String),
      sliceChunks plainPlatform shortTalk 20 = groups.map ("\n".intercalate ·) ∧
      groups.flatten = (shortTalk.filter (·.isSummarised)).map (·.preview plainPlatform) ∧
      (∀ group ∈ groups, group ≠ []) ∧
      ∀ chunk ∈ sliceChunks plainPlatform shortTalk 20, (chunk.length : Int) ≤ 20 :=
  slices_cover_within_cap plainPlatform (by decide)

theorem length_slice_le (s : String) (n : Nat) : (slice s n).length ≤ n := by
  rw [slice, String.length_ofList]
  exact List.length_take_le n s.toList

theorem length_preview_le {m : Message} (h : m.isSummarised = true) :
    (m.preview env).length ≤ TOOL_FACT_CHARS + 11 := by
  have hfact := length_slice_le (env.toolSummary (contentText m.content)) TOOL_FACT_CHARS
  have hprose := length_slice_le (contentText m.content) 400
  have hrole : m.role = "user" ∨ m.role = "assistant" ∨ m.role = "tool" := by
    simpa [Message.isSummarised, or_assoc] using (Bool.and_eq_true_iff.mp h).2
  have hsep : ": ".length = 2 := rfl
  have hchars : TOOL_FACT_CHARS = 1200 := rfl
  unfold Message.preview
  rw [String.length_append, String.length_append, hsep]
  split
  · next htool =>
    have htag : m.role.length = 4 := by rw [htool]; rfl
    omega
  · have htag : m.role.length ≤ 9 := by
      rcases hrole with hrole | hrole | hrole <;> rw [hrole] <;> decide
    omega

/-- What `compact` folds into the summary: within the cap it passes, every preview has room. -/
theorem sliceChunks_default {chunk : String} (h : chunk ∈ sliceChunks env ms) :
    chunk.length ≤ SLICE_MAX_CHARS := by
  have hroom : ∀ m ∈ ms, m.isSummarised = true →
      ((m.preview env).length : Int) ≤ (SLICE_MAX_CHARS : Nat) := by
    intro m _ hsummarised
    have hlength := length_preview_le env hsummarised
    have hfact : TOOL_FACT_CHARS + 11 ≤ SLICE_MAX_CHARS := by decide
    exact_mod_cast hlength.trans hfact
  exact_mod_cast length_chunk_le env hroom h

end GenusOs.Engine.Compaction
