import GenusOs.Python.Objects
import GenusOs.Secrets.ToolArgumentsLaw
import Mathlib

/-!
# The redaction of tool arguments on the objects of the call

The arguments that `redact_tool_arguments` is given belong to the call: it builds its result in
objects of its own. The tree that a JSON text parses to is nobody else's, and is redacted as a
value.

* `redactAt_spec`: the objects of the call stay as they are, and the result reads as the redaction
  of what they read as.
-/

namespace GenusOs.Secrets

open Python Heap

variable (env : Env)

/-- The text that `_redact_wrapped_arguments` makes of a text. -/
def redactWrappedText (levels : Nat) (tool s : String) : String :=
  match redactWrapped env levels tool (.str s) with
  | .str t => t
  | _ => ""

/-- The name of the call that a dict is. -/
def innerNameOf (arguments : List (String × Val)) : Option String :=
  match List.lookup "name" arguments with
  | some (.str name) => if (List.lookup "arguments" arguments).isSome then some name else none
  | _ => none

/-- The value of one argument; `redactIn` redacts a value a level down, as the arguments of a tool
or as any value. -/
def redactArgument (redactIn : Option String → Val → Heap → Val × Heap) (tool : String)
    (inner : Option String) (e : String × Val) (h : Heap) : Val × Heap :=
  if isSecret env tool e.1 then (.str PLACEHOLDER, h)
  else
    match inner with
    | some name => redactIn (if e.1 = "arguments" then some name else none) e.2 h
    | none => redactIn none e.2 h

/-- The loop of `_redact_call`, which fills `cleaned`. -/
def fillCleaned (redactIn : Option String → Val → Heap → Val × Heap) (tool : String)
    (inner : Option String) (cleaned : Nat) : List (String × Val) → Heap → Heap
  | [], h => h
  | e :: rest, h =>
    let (v, h) := redactArgument env redactIn tool inner e h
    fillCleaned redactIn tool inner cleaned rest (h.setItem cleaned e.1 v)

/-- `_redact_call` -/
def redactCallOf (redactIn : Option String → Val → Heap → Val × Heap) (tool : String)
    (arguments : List (String × Val)) (h : Heap) : Val × Heap :=
  (.ref h.length,
    fillCleaned env redactIn tool (innerNameOf arguments) h.length arguments (h ++ [.dict []]))

/-- `[_redact_value(item) for item in value]`, its items. -/
def redactItemsOf (redactIn : Option String → Val → Heap → Val × Heap) :
    List Val → Heap → List Val × Heap
  | [], h => ([], h)
  | v :: rest, h =>
    let (w, h) := redactIn none v h
    let (ws, h) := redactItemsOf redactIn rest h
    (w :: ws, h)

/-- `_redact_wrapped_arguments` for the tool of a wrapped call, `_redact_value` for none. -/
def redactAt : (levels : Nat) → Option String → Val → Heap → Val × Heap
  | levels, some name, .str s, h => (.str (redactWrappedText env levels name s), h)
  | _, none, .str s, h => (.str (env.redact s), h)
  | 0, _, .ref _, h => (.str PLACEHOLDER, h)
  | left + 1, tool, .ref address, h =>
    match h[address]? with
    | some (.dict arguments) => redactCallOf env (redactAt left) (tool.getD "") arguments h
    | some (.list items) =>
      let (ws, h) := redactItemsOf (redactAt left) items h
      (.ref h.length, h ++ [.list ws])
    | none => (.null, h)
  | _, _, v, h => (v, h)

/-- `redact_tool_arguments` -/
def redactToolArgumentsOf (tool : String) (v : Val) (h : Heap) : Val × Heap :=
  match v with
  | .ref address =>
    match h[address]? with
    | some (.dict arguments) =>
      redactCallOf env (redactAt env MAX_ARGUMENT_DEPTH) tool arguments h
    | _ => (v, h)
  | v => (v, h)

/-! ## What the result reads as -/

/-- The redaction of a tree, as the arguments of a tool or as any value. -/
def redactTree (levels : Nat) : Option String → Json → Json
  | some name => redactWrapped env levels name
  | none => redactValue env levels

/-- A redaction that leaves the objects of the heap, and has built the tree in new ones. -/
structure Redacts (h : Heap) (depth : Nat) (t : Json) (r : Val × Heap) : Prop where
  kept : Kept h r.2
  reads : r.2.read h.length depth r.1 = some t

variable {env} {levels left lo : Nat} {tool s : String} {h h' : Heap} {v : Val} {t : Json}

theorem redactWrapped_isText (levels : Nat) (tool s : String) :
    redactWrapped env levels tool (.str s) = .str (redactWrappedText env levels tool s) := by
  have htext : ∃ t, redactWrapped env levels tool (.str s) = .str t := by
    rw [redactWrapped]
    split
    · exact ⟨_, rfl⟩
    · exact ⟨_, rfl⟩
    · split <;> exact ⟨_, rfl⟩
    · exact ⟨_, rfl⟩
  obtain ⟨t, ht⟩ := htext
  unfold redactWrappedText
  rw [ht]

/-- A redaction that makes no object. -/
theorem redacts_text (h : Heap) (depth : Nat) (s : String) : Redacts h depth (.str s) (.str s, h) :=
  ⟨Kept.refl h, read_str h _ depth s⟩

theorem innerNameOf_eq {depth : Nat} {arguments : List (String × Val)} {d : Dict}
    (hread : readEntries (h.read lo depth) arguments = some d) :
    innerNameOf arguments = innerName d := by
  unfold innerNameOf innerName
  rw [readEntries_lookup hread "name", readEntries_lookup_isSome hread "arguments"]
  cases List.lookup "name" arguments with
  | none => rfl
  | some v =>
    rw [Option.bind_some]
    split
    · next name heq =>
      rw [Option.some.inj heq, read_str]
    · next hno =>
      split
      · next name heq => exact absurd (congrArg some (eq_str_of_read heq)) (hno name)
      · rfl

/-! ## Filling the result of a call -/

/-- The heap of the loop: the objects of the call, and `cleaned` with what is done. -/
structure Filling (h : Heap) (left : Nat) (done : Dict) (H : Heap) : Prop where
  kept : Kept h H
  cleaned : ∃ entries, H[h.length]? = some (.dict entries) ∧
    readEntries (H.read (h.length + 1) left) entries = some done

theorem filling_start (h : Heap) (left : Nat) : Filling h left [] (h ++ [.dict []]) := by
  refine ⟨kept_append h _, [], ?_, rfl⟩
  rw [List.getElem?_append_right (le_refl _), Nat.sub_self]
  rfl

theorem getElem?_setItem_ne (h : Heap) {address c : Nat} (key : String) (v : Val)
    (hne : c ≠ address) : (h.setItem c key v)[address]? = h[address]? := by
  unfold Heap.setItem
  rw [List.getElem?_modify]
  simp only [if_neg hne]
  exact Option.map_id'

theorem getElem?_setItem_dict {h : Heap} {c : Nat} {entries : List (String × Val)} (key : String)
    (v : Val) (hcell : h[c]? = some (.dict entries)) (hnew : key ∉ entries.map Prod.fst) :
    (h.setItem c key v)[c]? = some (.dict (entries ++ [(key, v)])) := by
  unfold Heap.setItem
  rw [List.getElem?_modify, hcell]
  simp only [if_true]
  show some (Cell.dict (setEntry key v entries)) = _
  rw [setEntry, if_neg hnew]

theorem Filling.step {done : Dict} {H : Heap} {key : String} {u : Json} {r : Val × Heap}
    (hfill : Filling h left done H) (hr : Redacts H left u r) (hnew : key ∉ done.map Prod.fst) :
    Filling h left (done ++ [(key, u)]) (r.2.setItem h.length key r.1) := by
  obtain ⟨entries, hcell, hdone⟩ := hfill.cleaned
  obtain ⟨hlt, -⟩ := List.getElem?_eq_some_iff.mp hcell
  rw [readEntries_keys hdone] at hnew
  have hagree : ∀ (address : Nat) (cell : Cell), h.length + 1 ≤ address →
      r.2[address]? = some cell →
      (r.2.setItem h.length key r.1)[address]? = some cell := by
    intro address cell haddress hcell
    rw [getElem?_setItem_ne _ _ _ (by omega), hcell]
  constructor
  · intro address cell haddress
    obtain ⟨hin, -⟩ := List.getElem?_eq_some_iff.mp haddress
    rw [getElem?_setItem_ne _ _ _ (by omega)]
    exact hr.kept _ _ (hfill.kept _ _ haddress)
  · refine ⟨entries ++ [(key, r.1)], getElem?_setItem_dict key r.1 (hr.kept _ _ hcell) hnew, ?_⟩
    refine readEntries_append (readEntries_mono (fun v t hv => ?_) hdone)
      (readEntries_cons.mpr ⟨u, [], ?_, rfl, rfl⟩)
    · exact read_of_agree (le_refl _) (fun address cell haddress hcell =>
        hagree address cell haddress (hr.kept _ _ hcell)) hv
    · exact read_of_agree (by omega) (fun address cell haddress hcell =>
        hagree address cell (by omega) hcell) hr.reads

section call

variable {redactIn : Option String → Val → Heap → Val × Heap} {depth : Nat} {inner : Option String}

/-- What is asked of a redaction one level down. -/
def RedactsIn (env : Env) (left depth : Nat) (redactIn : Option String → Val → Heap → Val × Heap) :
    Prop :=
  ∀ tool v H u, Heap.read H 0 depth v = some u →
    Redacts H left (redactTree env left tool u) (redactIn tool v H)

theorem redactArgument_spec (hin : RedactsIn env left depth redactIn) {e : String × Val} {u : Json}
    {H : Heap} (hread : H.read 0 depth e.2 = some u) :
    Redacts H left (redactEntry env left tool inner (e.1, u)).2
      (redactArgument env redactIn tool inner e H) := by
  unfold redactEntry redactArgument
  dsimp only
  by_cases hsecret : isSecret env tool e.1 = true
  · rw [if_pos hsecret, if_pos hsecret]
    exact redacts_text H left PLACEHOLDER
  · rw [if_neg hsecret, if_neg hsecret]
    cases inner with
    | none => exact hin none e.2 H u hread
    | some name =>
      dsimp only
      by_cases harguments : e.1 = "arguments"
      · rw [if_pos harguments, if_pos harguments]
        exact hin (some name) e.2 H u hread
      · rw [if_neg harguments, if_neg harguments]
        exact hin none e.2 H u hread

theorem fillCleaned_spec (hin : RedactsIn env left depth redactIn) {rest : List (String × Val)}
    {trees done : Dict} {H : Heap} (hfill : Filling h left done H)
    (hread : readEntries (h.read 0 depth) rest = some trees)
    (hnodup : (done.map Prod.fst ++ rest.map Prod.fst).Nodup) :
    Filling h left (done ++ trees.map (redactEntry env left tool inner))
      (fillCleaned env redactIn tool inner h.length rest H) := by
  induction rest generalizing trees done H with
  | nil =>
    obtain rfl := Option.some.inj hread
    rw [List.map_nil, List.append_nil]
    exact hfill
  | cons e rest ih =>
    obtain ⟨u, us, hu, hus, rfl⟩ := readEntries_cons.mp hread
    have hu' : H.read 0 depth e.2 = some u :=
      read_of_agree (le_refl _) (fun address cell _ hcell => hfill.kept address cell hcell) hu
    have hstep : Redacts H left (redactEntry env left tool inner (e.1, u)).2
        (redactArgument env redactIn tool inner e H) := redactArgument_spec hin hu'
    rw [List.map_cons] at hnodup
    have hnew : e.1 ∉ done.map Prod.fst := by
      intro hmem
      exact (List.nodup_append.mp hnodup).2.2 e.1 hmem e.1 (List.mem_cons_self ..) rfl
    have hnext := ih (hfill.step hstep hnew) hus (by
      rw [List.map_append, List.map_singleton, List.append_assoc]
      exact hnodup)
    rw [List.append_assoc] at hnext
    exact hnext

theorem redactCallOf_spec (hin : RedactsIn env left depth redactIn)
    {arguments : List (String × Val)} {d : Dict} (hnodup : (arguments.map Prod.fst).Nodup)
    (hread : readEntries (h.read 0 depth) arguments = some d) :
    Redacts h (left + 1) (.obj (redactCall env left tool d))
      (redactCallOf env redactIn tool arguments h) := by
  have hfill : Filling h left ([] ++ d.map (redactEntry env left tool (innerNameOf arguments)))
      (fillCleaned env redactIn tool (innerNameOf arguments) h.length arguments
        (h ++ [.dict []])) :=
    fillCleaned_spec hin (filling_start h left) hread hnodup
  rw [List.nil_append, innerNameOf_eq hread, ← redactCall_eq] at hfill
  obtain ⟨entries, hcell, hdone⟩ := hfill.cleaned
  have hkeys : entries.map Prod.fst = arguments.map Prod.fst := by
    rw [← readEntries_keys hdone, ← readEntries_keys hread, redactCall_eq, List.map_map]
    rfl
  unfold redactCallOf
  rw [innerNameOf_eq hread]
  refine ⟨hfill.kept, read_dict (le_refl _) hcell (hkeys ▸ hnodup) ?_⟩
  refine readEntries_mono (fun v t hv => ?_) hdone
  exact read_of_agree (Nat.le_succ _) (fun _ _ _ hcell => hcell) hv

theorem redactItemsOf_spec (hin : RedactsIn env left depth redactIn) {items : List Val}
    {ts : List Json} {H : Heap} (hkept : Kept h H)
    (hread : readItems (h.read 0 depth) items = some ts) :
    Kept H (redactItemsOf redactIn items H).2 ∧
      readItems ((redactItemsOf redactIn items H).2.read H.length left)
        (redactItemsOf redactIn items H).1 = some (ts.map (redactValue env left)) := by
  induction items generalizing ts H with
  | nil =>
    obtain rfl := Option.some.inj hread
    exact ⟨Kept.refl H, rfl⟩
  | cons v rest ih =>
    obtain ⟨u, us, hu, hus, rfl⟩ := readItems_cons.mp hread
    have hitem := hin none v H u
      (read_of_agree (le_refl _) (fun address cell _ hcell => hkept address cell hcell) hu)
    obtain ⟨hrest, hreads⟩ := ih (hkept.trans hitem.kept) hus
    refine ⟨hitem.kept.trans hrest, readItems_cons.mpr ⟨_, _, ?_, ?_, rfl⟩⟩
    · exact read_of_agree (le_refl _) (fun address cell _ hcell => hrest address cell hcell)
        hitem.reads
    · refine readItems_mono (fun w t hw => ?_) hreads
      exact read_of_agree hitem.kept.length_le (fun _ _ _ hcell => hcell) hw

end call

theorem redactTree_zero (tool : Option String) (d : Dict) :
    redactTree env 0 tool (.obj d) = .str PLACEHOLDER := by
  cases tool with
  | none => exact redactValue_obj_zero
  | some name => exact redactWrapped_obj_zero

theorem redactTree_items_zero (tool : Option String) (ts : List Json) :
    redactTree env 0 tool (.arr ts) = .str PLACEHOLDER := by
  cases tool with
  | none => exact redactValue_arr_zero
  | some name => exact redactWrapped_arr.trans redactValue_arr_zero

theorem redactTree_dict (left : Nat) (tool : Option String) (d : Dict) :
    redactTree env (left + 1) tool (.obj d) = .obj (redactCall env left (tool.getD "") d) := by
  cases tool with
  | none => exact redactValue_obj
  | some name => exact redactWrapped_obj

theorem redactTree_items (left : Nat) (tool : Option String) (ts : List Json) :
    redactTree env (left + 1) tool (.arr ts) = .arr (ts.map (redactValue env left)) := by
  cases tool with
  | none => exact redactValue_arr
  | some name => exact redactWrapped_arr.trans redactValue_arr

theorem redactTree_scalar (levels : Nat) (tool : Option String) (hstr : ∀ s, t ≠ .str s)
    (harr : ∀ ts, t ≠ .arr ts) (hobj : ∀ d, t ≠ .obj d) : redactTree env levels tool t = t := by
  have hvalue : redactValue env levels t = t := by
    rw [redactValue]
    · exact hstr
    · exact hobj
    · exact harr
  cases tool with
  | none => exact hvalue
  | some name =>
    show redactWrapped env levels name t = t
    rw [redactWrapped]
    · exact hvalue
    · exact hstr
    · exact hobj

theorem redacts_list {H : Heap} {ws : List Val} {ts : List Json} (hkept : Kept h H)
    (hitems : readItems (H.read h.length left) ws = some ts) :
    Redacts h (left + 1) (.arr ts) (.ref H.length, H ++ [.list ws]) := by
  have hcell : (H ++ [Cell.list ws])[H.length]? = some (.list ws) := by
    rw [List.getElem?_append_right (le_refl _), Nat.sub_self]
    rfl
  refine ⟨hkept.trans (kept_append _ _), read_list hkept.length_le hcell ?_⟩
  refine readItems_mono (fun w t hw => ?_) hitems
  exact read_of_agree (le_refl _)
    (fun address cell _ hcell => kept_append _ _ address cell hcell) hw

theorem redactAt_text (levels depth : Nat) (tool : Option String) (s : String) (h : Heap) :
    Redacts h depth (redactTree env levels tool (.str s))
      (redactAt env levels tool (.str s) h) := by
  cases tool with
  | none =>
    rw [show redactTree env levels none (.str s) = _ from redactValue_str]
    cases levels <;> exact redacts_text h depth _
  | some name =>
    rw [show redactTree env levels (some name) (.str s) = _ from redactWrapped_isText levels name s]
    cases levels <;> exact redacts_text h depth _

theorem redactAt_scalar (levels : Nat) {depth depth' : Nat} (tool : Option String)
    (hread : h.read 0 depth v = some t) (hstr : ∀ s, v ≠ .str s)
    (href : ∀ address, v ≠ .ref address) :
    Redacts h depth' (redactTree env levels tool t) (redactAt env levels tool v h) := by
  obtain ⟨⟨hs, harr, hobj⟩, hreads⟩ := read_scalar hread hstr href
  have hself : redactAt env levels tool v h = (v, h) := by
    cases v with
    | str s => exact absurd rfl (hstr s)
    | ref address => exact absurd rfl (href address)
    | null | bool | int | float => all_goals cases levels <;> cases tool <;> rfl
  rw [redactTree_scalar levels tool hs harr hobj, hself]
  exact ⟨Kept.refl h, hreads _ _ _⟩

/-- **The redaction builds the redacted tree in objects of its own.** -/
theorem redactAt_spec (env : Env) (levels depth : Nat) :
    RedactsIn env levels depth (redactAt env levels) := by
  induction levels generalizing depth with
  | zero =>
    intro tool v h t hread
    cases v with
    | null | bool | int | float => exact redactAt_scalar 0 tool hread nofun nofun
    | str s =>
      rw [read_str] at hread
      obtain rfl := Option.some.inj hread
      exact redactAt_text 0 0 tool s h
    | ref address =>
      have hself : redactAt env 0 tool (.ref address) h = (.str PLACEHOLDER, h) := by
        cases tool <;> rfl
      rw [hself]
      obtain ⟨below, rfl, -, ⟨entries, d, -, -, -, rfl⟩ | ⟨items, ts, -, -, rfl⟩⟩ := read_ref hread
      · rw [redactTree_zero]
        exact redacts_text h 0 PLACEHOLDER
      · rw [redactTree_items_zero]
        exact redacts_text h 0 PLACEHOLDER
  | succ left ih =>
    intro tool v h t hread
    cases v with
    | null | bool | int | float => exact redactAt_scalar (left + 1) tool hread nofun nofun
    | str s =>
      rw [read_str] at hread
      obtain rfl := Option.some.inj hread
      exact redactAt_text (left + 1) (left + 1) tool s h
    | ref address =>
      obtain ⟨below, rfl, -, ⟨entries, d, hcell, hnodup, htree, rfl⟩
          | ⟨items, ts, hcell, htree, rfl⟩⟩ :=
        read_ref hread
      · rw [redactTree_dict, redactAt, hcell]
        exact redactCallOf_spec (ih below) hnodup htree
      · rw [redactTree_items, redactAt, hcell]
        obtain ⟨hkept, hitems⟩ := redactItemsOf_spec (ih below) (Kept.refl h) htree
        exact redacts_list hkept hitems

/-- `redact_tool_arguments` on the objects of a call. -/
theorem redactToolArgumentsOf_spec {depth : Nat} {d : Dict} (tool : String)
    (hread : h.read 0 depth v = some (.obj d)) :
    Redacts h (MAX_ARGUMENT_DEPTH + 1) (redactToolArguments env tool (.obj d))
      (redactToolArgumentsOf env tool v h) := by
  cases v with
  | null | bool | int | float | str => cases depth <;> cases hread
  | ref address =>
    obtain ⟨below, rfl, -, ⟨entries, d, hcell, hnodup, htree, ⟨⟩⟩ | ⟨_, _, _, _, hobj⟩⟩ :=
      read_ref hread
    · unfold redactToolArgumentsOf
      dsimp only
      rw [hcell]
      exact redactCallOf_spec (redactAt_spec env MAX_ARGUMENT_DEPTH below) hnodup htree
    · cases hobj

/-! ## The law -/

/-- **Redaction hides the secrets of a call.** -/
theorem redaction_hides_secrets (env : Env) :
    -- Trees that differ in secrets are redacted to the same.
    (∀ tool d e, Relation.ReflTransGen (Differ env (.call tool)) (.obj d) (.obj e) →
      redactToolArguments env tool (.obj d) = redactToolArguments env tool (.obj e)) ∧
    -- The arguments of a direct call are redacted as its tool's, those of a wrapped call that runs
    -- as the tool's that `inner_call` names.
    (∀ tool d, tool ≠ WRAPPER_TOOL → innerCall env tool d = (tool, d) ∧
      redactToolArguments env tool (.obj d) = .obj (redactCall env MAX_ARGUMENT_DEPTH tool d)) ∧
    (∀ tool d inner raw, unwrap env d = .ok (tool, inner) → List.lookup "arguments" d = some raw →
      explicitArguments env raw = some inner →
      innerCall env WRAPPER_TOOL d = (tool, inner) ∧
        ∃ redacted, redactToolArguments env WRAPPER_TOOL (.obj d) = .obj redacted ∧
          List.lookup "arguments" redacted =
            some (if argumentReadsAsACredential env "arguments" then .str PLACEHOLDER
              else rewrap env raw (redactCall env (MAX_ARGUMENT_DEPTH - 1) tool inner))) ∧
    -- The objects of the call are not modified, and the result is made of others.
    (∀ tool v h depth d, Heap.read h 0 depth v = some (.obj d) →
      Redacts h (MAX_ARGUMENT_DEPTH + 1) (redactToolArguments env tool (.obj d))
        (redactToolArgumentsOf env tool v h)) := by
  refine ⟨fun tool d e h => redactToolArguments_eq tool h,
    fun tool d htool => ⟨if_pos htool, rfl⟩, ?_,
    fun tool v h depth d hread => redactToolArgumentsOf_spec tool hread⟩
  intro tool d inner raw hunwrap hraw hinner
  obtain ⟨hruns, hcall⟩ := innerCall_of_unwrap hunwrap
  exact ⟨hcall, _, rfl, redacted_as_inner_call hraw hcall hruns hinner⟩

/-- Texts without a credential, and the JSON of two calls. -/
def storedTwice : Env where
  redact s := s
  loads s :=
    if s = "\x7b\"key\": \"mail\", \"value\": \"hunter2\"\x7d" then
      some (.obj [("key", .str "mail"), ("value", .str "hunter2")])
    else if s = "\x7b\"key\": \"mail\", \"value\": \"swordfish\"\x7d" then
      some (.obj [("key", .str "mail"), ("value", .str "swordfish")])
    else none
  loads_str h := by
    split at h
    · cases h
    · split at h <;> cases h
  floatText _ := ""

/-- A wrapped `vault_set`, its name not stripped and its arguments a text. -/
theorem wrapped_secret_hidden :
    redactToolArguments storedTwice WRAPPER_TOOL (.obj [("name", .str " vault_set"),
        ("arguments", .str "\x7b\"key\": \"mail\", \"value\": \"hunter2\"\x7d")]) =
      redactToolArguments storedTwice WRAPPER_TOOL (.obj [("name", .str " vault_set"),
        ("arguments", .str "\x7b\"key\": \"mail\", \"value\": \"swordfish\"\x7d")]) := by
  have hsecret : Differ storedTwice (.call " vault_set")
      (.obj ([("key", .str "mail")] ++ ("value", .str "hunter2") :: []))
      (.obj ([("key", .str "mail")] ++ ("value", .str "swordfish") :: [])) :=
    .secret _ _ _ _ (by decide) nofun
  have hwrapped : Differ storedTwice (.call WRAPPER_TOOL)
      (.obj ([("name", .str " vault_set")] ++
        ("arguments", .str "\x7b\"key\": \"mail\", \"value\": \"hunter2\"\x7d") :: []))
      (.obj ([("name", .str " vault_set")] ++
        ("arguments", .str "\x7b\"key\": \"mail\", \"value\": \"swordfish\"\x7d") :: [])) :=
    .inner rfl (.text rfl rfl hsecret)
  exact (redaction_hides_secrets storedTwice).1 WRAPPER_TOOL _ _ (.single hwrapped)

end GenusOs.Secrets
