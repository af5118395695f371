import GenusOs.Secrets.ToolArguments
import Mathlib

/-!
# What the redaction of tool arguments hides

* `redactToolArguments_eq`: two calls that differ in the value of a secret parameter are redacted to
  the same.
* `redacted_as_inner_call`: the arguments of a wrapped call are redacted as those of the tool that
  `inner_call` names.
-/

namespace GenusOs.Secrets

open Python

variable {env : Env} {tool name : String} {v w : Json} {d e : Dict}

/-! ## Trees that differ in a secret -/

/-- How a tree is read: as the arguments of a call, as any value, or as the `arguments` of a wrapped
call. -/
inductive Place
  | call (tool : String)
  | value
  | wrapped (tool : String)

/-- The trees differ only in the value of a parameter that holds a credential, somewhere inside. -/
inductive Differ (env : Env) : Place → Json → Json → Prop
  /-- The parameter itself, which does not name the call that a call wraps. -/
  | secret {tool key : String} (before after : Dict) (v w : Json) (h : isSecret env tool key = true)
      (hname : key = "name" →
        innerName (before ++ (key, v) :: after) = innerName (before ++ (key, w) :: after)) :
      Differ env (.call tool) (.obj (before ++ (key, v) :: after))
        (.obj (before ++ (key, w) :: after))
  /-- Inside the call that a call wraps. -/
  | inner {tool name : String} {before after : Dict} {v w : Json}
      (hname : innerName (before ++ ("arguments", v) :: after) = some name)
      (h : Differ env (.wrapped name) v w) :
      Differ env (.call tool) (.obj (before ++ ("arguments", v) :: after))
        (.obj (before ++ ("arguments", w) :: after))
  /-- Inside another argument. -/
  | argument {tool key : String} {before after : Dict} {v w : Json}
      (hkey : key = "arguments" → innerName (before ++ (key, v) :: after) = none)
      (h : Differ env .value v w) :
      Differ env (.call tool) (.obj (before ++ (key, v) :: after))
        (.obj (before ++ (key, w) :: after))
  | dict {d e : Dict} (h : Differ env (.call "") (.obj d) (.obj e)) :
      Differ env .value (.obj d) (.obj e)
  | item {before after : List Json} {v w : Json} (h : Differ env .value v w) :
      Differ env .value (.arr (before ++ v :: after)) (.arr (before ++ w :: after))
  | object {name : String} {d e : Dict} (h : Differ env (.call name) (.obj d) (.obj e)) :
      Differ env (.wrapped name) (.obj d) (.obj e)
  /-- Both are JSON texts of objects. -/
  | text {name s t : String} {d e : Dict} (hs : env.loads s = some (.obj d))
      (ht : env.loads t = some (.obj e)) (h : Differ env (.call name) (.obj d) (.obj e)) :
      Differ env (.wrapped name) (.str s) (.str t)
  /-- Both are JSON texts of such texts. -/
  | textOfText {name s t s' t' : String} (hs : env.loads s = some (.str s'))
      (ht : env.loads t = some (.str t')) (h : Differ env (.wrapped name) (.str s') (.str t')) :
      Differ env (.wrapped name) (.str s) (.str t)
  | items {name : String} {xs ys : List Json} (h : Differ env .value (.arr xs) (.arr ys)) :
      Differ env (.wrapped name) (.arr xs) (.arr ys)

/-- The redactions of two trees at a place are the same, at any depth. -/
def SameRedaction (env : Env) : Place → Json → Json → Prop
  | .call tool, v, w => ∀ d e, v = .obj d → w = .obj e →
      ∀ left, redactCall env left tool d = redactCall env left tool e
  | .value, v, w => ∀ levels, redactValue env levels v = redactValue env levels w
  | .wrapped name, v, w => ∀ levels, redactWrapped env levels name v =
      redactWrapped env levels name w

/-! ## One parameter -/

theorem lookup_middle (key key' : String) (before after : Dict) (v w : Json) (h : key ≠ key') :
    List.lookup key (before ++ (key', v) :: after) =
      List.lookup key (before ++ (key', w) :: after) := by
  have hne : (key == key') = false := beq_eq_false_iff_ne.mpr h
  rw [List.lookup_append, List.lookup_append, List.lookup_cons, List.lookup_cons, hne]

theorem lookup_middle_isSome (key key' : String) (before after : Dict) (v w : Json) :
    (List.lookup key (before ++ (key', v) :: after)).isSome =
      (List.lookup key (before ++ (key', w) :: after)).isSome := by
  by_cases h : key = key'
  · subst h
    rw [List.lookup_append, List.lookup_append, List.lookup_cons_self, List.lookup_cons_self,
      Option.isSome_or, Option.isSome_or]
    rfl
  · rw [lookup_middle key key' before after v w h]

/-- Another value than that of `name` leaves the name of the call. -/
theorem innerName_middle {key : String} (before after : Dict) (v w : Json) (h : "name" ≠ key) :
    innerName (before ++ (key, v) :: after) = innerName (before ++ (key, w) :: after) := by
  unfold innerName
  rw [lookup_middle "name" key before after v w h,
    lookup_middle_isSome "arguments" key before after v w]

/-- Neither does another value that is no string. -/
theorem innerName_not_string {key : String} (before after : Dict) (hv : ∀ s, v ≠ .str s)
    (hw : ∀ s, w ≠ .str s) :
    innerName (before ++ (key, v) :: after) = innerName (before ++ (key, w) :: after) := by
  by_cases hkey : "name" = key
  · subst hkey
    unfold innerName
    have hvalue (u : Json) : List.lookup "name" (before ++ ("name", u) :: after) =
        (List.lookup "name" before).or (some u) := by
      rw [List.lookup_append, List.lookup_cons_self]
    rw [lookup_middle_isSome "arguments" "name" before after v w, hvalue, hvalue]
    cases List.lookup "name" before with
    | some value => rfl
    | none =>
      rw [Option.none_or, Option.none_or]
      split
      · next name heq => exact absurd (Option.some.inj heq) (hv name)
      · split
        · next name heq => exact absurd (Option.some.inj heq) (hw name)
        · rfl
  · exact innerName_middle before after v w hkey

theorem Differ.not_string (h : Differ env .value v w) : (∀ s, v ≠ .str s) ∧ ∀ s, w ≠ .str s := by
  cases h with
  | dict => exact ⟨nofun, nofun⟩
  | item => exact ⟨nofun, nofun⟩

theorem Differ.isCall (h : Differ env (.call tool) v w) : ∃ d, w = .obj d := by
  cases h with
  | secret => exact ⟨_, rfl⟩
  | inner => exact ⟨_, rfl⟩
  | argument => exact ⟨_, rfl⟩

/-- What becomes of one argument. -/
def redactEntry (env : Env) (left : Nat) (tool : String) (inner : Option String)
    (e : String × Json) : String × Json :=
  (e.1,
    if isSecret env tool e.1 then .str PLACEHOLDER
    else
      match inner with
      | some name =>
        if e.1 = "arguments" then redactWrapped env left name e.2 else redactValue env left e.2
      | none => redactValue env left e.2)

theorem redactCall_eq (left : Nat) (tool : String) (d : Dict) :
    redactCall env left tool d = d.map (redactEntry env left tool (innerName d)) := by
  rw [redactCall]
  rfl

/-- A call is redacted argument by argument. -/
theorem redactCall_middle {key : String} {before after : Dict} {left : Nat}
    (hname : innerName (before ++ (key, v) :: after) = innerName (before ++ (key, w) :: after))
    (h : redactEntry env left tool (innerName (before ++ (key, v) :: after)) (key, v) =
      redactEntry env left tool (innerName (before ++ (key, v) :: after)) (key, w)) :
    redactCall env left tool (before ++ (key, v) :: after) =
      redactCall env left tool (before ++ (key, w) :: after) := by
  rw [redactCall_eq, redactCall_eq, ← hname, List.map_append, List.map_append, List.map_cons,
    List.map_cons, h]

/-- **The value of a secret parameter does not show.** -/
theorem Differ.sameRedaction {place : Place} (h : Differ env place v w) :
    SameRedaction env place v w := by
  induction h with
  | @secret tool key before after v w hsecret hname =>
    rintro _ _ ⟨⟩ ⟨⟩ left
    have hinner : innerName (before ++ (key, v) :: after) =
        innerName (before ++ (key, w) :: after) := by
      by_cases hkey : key = "name"
      · exact hname hkey
      · exact innerName_middle before after v w (Ne.symm hkey)
    refine redactCall_middle hinner ?_
    unfold redactEntry
    rw [if_pos hsecret, if_pos hsecret]
  | @inner tool name before after v w hinner _ ih =>
    rintro _ _ ⟨⟩ ⟨⟩ left
    refine redactCall_middle (innerName_middle before after v w (by decide)) ?_
    unfold redactEntry
    rw [hinner]
    dsimp only
    rw [if_pos rfl, if_pos rfl, ih left]
  | @argument tool key before after v w hkey hdiffer ih =>
    rintro _ _ ⟨⟩ ⟨⟩ left
    obtain ⟨hv, hw⟩ := hdiffer.not_string
    refine redactCall_middle (innerName_not_string before after hv hw) ?_
    unfold redactEntry
    dsimp only
    rw [ih left]
    by_cases harguments : key = "arguments"
    · rw [hkey harguments]
    · cases innerName (before ++ (key, v) :: after) with
      | none => rfl
      | some name => simp only [if_neg harguments]
  | @dict d e _ ih =>
    rintro (_ | left)
    · rw [redactValue_obj_zero, redactValue_obj_zero]
    · rw [redactValue_obj, redactValue_obj, ih d e rfl rfl left]
  | @item before after v w _ ih =>
    rintro (_ | left)
    · rw [redactValue_arr_zero, redactValue_arr_zero]
    · rw [redactValue_arr, redactValue_arr, List.map_append, List.map_append, List.map_cons,
        List.map_cons, ih left]
  | @object name d e _ ih =>
    rintro (_ | left)
    · rw [redactWrapped_obj_zero, redactWrapped_obj_zero]
    · rw [redactWrapped_obj, redactWrapped_obj, ih d e rfl rfl left]
  | @text name s t d e hs ht _ ih =>
    rintro (_ | left)
    · rw [redactWrapped_text_zero hs, redactWrapped_text_zero ht]
    · rw [redactWrapped_text hs, redactWrapped_text ht, ih d e rfl rfl left]
  | @textOfText name s t s' t' hs ht _ ih =>
    intro levels
    rw [redactWrapped_textOfText hs, redactWrapped_textOfText ht, ih (levels - 1)]
  | @items name xs ys _ ih =>
    intro levels
    rw [redactWrapped_arr, redactWrapped_arr, ih levels]

/-- **Calls that differ in secrets only are redacted to the same.** -/
theorem redactToolArguments_eq (tool : String)
    (h : Relation.ReflTransGen (Differ env (.call tool)) (.obj d) (.obj e)) :
    redactToolArguments env tool (.obj d) = redactToolArguments env tool (.obj e) := by
  have hobj : ∀ v, Relation.ReflTransGen (Differ env (.call tool)) (.obj d) v →
      ∃ f, v = .obj f ∧ redactToolArguments env tool
        (.obj d) = redactToolArguments env tool (.obj f) := by
    intro v hv
    induction hv with
    | refl => exact ⟨d, rfl, rfl⟩
    | tail _ hstep ih =>
      obtain ⟨f, rfl, hf⟩ := ih
      have hsame := hstep.sameRedaction
      obtain ⟨g, rfl⟩ := hstep.isCall
      refine ⟨g, rfl, hf.trans ?_⟩
      exact congrArg Json.obj (hsame f g rfl rfl MAX_ARGUMENT_DEPTH)
  obtain ⟨f, hf, heq⟩ := hobj (.obj e) h
  rw [heq, ← hf]

/-! ## The tool that runs -/

/-- The dispatcher strips the name, and so does the redactor. -/
theorem redactCall_strip (left : Nat) (name : String) (d : Dict) :
    redactCall env left (strip name) d = redactCall env left name d := by
  have hsecret : ∀ key, isSecret env (strip name) key = isSecret env name key := by
    intro key
    unfold isSecret
    rw [strip_strip]
  rw [redactCall_eq, redactCall_eq]
  refine List.map_congr_left fun e _ => ?_
  unfold redactEntry
  rw [hsecret]

theorem lookup_redactEntry (left : Nat) (tool : String) (inner : Option String) (key : String)
    (d : Dict) : List.lookup key (d.map (redactEntry env left tool inner)) =
      (List.lookup key d).map fun v => (redactEntry env left tool inner (key, v)).2 := by
  induction d with
  | nil => rfl
  | cons e d ih =>
    rw [List.map_cons]
    by_cases hkey : key = e.1
    · subst hkey
      show List.lookup e.1 ((e.1, _) :: _) = (List.lookup e.1 ((e.1, e.2) :: d)).map _
      rw [List.lookup_cons_self, List.lookup_cons_self]
      rfl
    · have hne : (key == e.1) = false := beq_eq_false_iff_ne.mpr hkey
      show List.lookup key ((e.1, _) :: _) = (List.lookup key ((e.1, e.2) :: d)).map _
      rw [List.lookup_cons, List.lookup_cons, hne]
      exact ih

/-- The call that runs is named by the string `name`. -/
theorem innerCall_wrapped {arguments inner : Dict}
    (hcall : innerCall env WRAPPER_TOOL arguments = (tool, inner)) (hruns : tool ≠ WRAPPER_TOOL) :
    ∃ name, List.lookup "name" arguments = some (.str name) ∧ strip name = tool := by
  unfold innerCall at hcall
  rw [if_neg (not_not_intro rfl)] at hcall
  split at hcall
  · next name hname =>
    split at hcall
    · exact absurd (Prod.mk.inj hcall).1.symm hruns
    · exact ⟨name, hname, (Prod.mk.inj hcall).1⟩
  · exact absurd (Prod.mk.inj hcall).1.symm hruns

/-- What the handler of the wrapper runs is what `inner_call` names. -/
theorem innerCall_of_unwrap {arguments inner : Dict}
    (h : unwrap env arguments = .ok (tool, inner)) :
    tool ≠ WRAPPER_TOOL ∧ innerCall env WRAPPER_TOOL arguments = (tool, inner) := by
  unfold unwrap at h
  unfold innerCall
  rw [if_neg (not_not_intro rfl)]
  split at h
  · next name hname =>
    split at h
    · cases h
    next hempty =>
    split at h
    · cases h
    next hwrapper =>
    split at h
    · cases h
    next inner' hwrapped =>
    cases h
    refine ⟨hwrapper, ?_⟩
    rw [if_neg (not_or.mpr ⟨hempty, hwrapper⟩), hwrapped]
    rfl
  · cases h

theorem loads_of_explicitArguments {s : String} {inner : Dict}
    (h : explicitArguments env (.str s) = some inner) : env.loads s = some (.obj inner) := by
  unfold explicitArguments at h
  dsimp only at h
  split at h
  · next hloads => rw [hloads, Option.some.inj h]
  · cases h

/-- Arguments in the form in which the wrapper carried them: an object, or its JSON text. -/
def rewrap (env : Env) (raw : Json) (arguments : Dict) : Json :=
  match raw with
  | .str _ => .str ((Json.obj arguments).dumps env.floatText)
  | _ => .obj arguments

theorem isSecret_wrapper (key : String) :
    isSecret env WRAPPER_TOOL key = argumentReadsAsACredential env key := by
  have hlookup : List.lookup (strip WRAPPER_TOOL) SECRET_TOOL_ARGUMENTS = none := by decide
  rw [isSecret, hlookup]
  exact Bool.false_or _

/-- **A wrapped call is redacted as the call that `inner_call` names.** -/
theorem redacted_as_inner_call {arguments inner : Dict} {raw : Json} {left : Nat}
    (hraw : List.lookup "arguments" arguments = some raw)
    (hcall : innerCall env WRAPPER_TOOL arguments = (tool, inner)) (hruns : tool ≠ WRAPPER_TOOL)
    (hinner : explicitArguments env raw = some inner) :
    List.lookup "arguments" (redactCall env (left + 1) WRAPPER_TOOL arguments) =
      some (if argumentReadsAsACredential env "arguments" then .str PLACEHOLDER
        else rewrap env raw (redactCall env left tool inner)) := by
  obtain ⟨name, hname, rfl⟩ := innerCall_wrapped hcall hruns
  have hinnerName : innerName arguments = some name := by
    unfold innerName
    rw [hname, hraw]
    rfl
  rw [redactCall_eq, lookup_redactEntry, hraw, hinnerName, redactCall_strip]
  unfold redactEntry
  rw [Option.map_some, isSecret_wrapper]
  refine congrArg some ?_
  split
  · rfl
  dsimp only
  rw [if_pos rfl]
  cases raw with
  | obj arguments =>
    obtain rfl := Option.some.inj hinner
    exact redactWrapped_obj
  | str s => exact redactWrapped_text (loads_of_explicitArguments hinner)
  | null | bool | int | float | arr => cases hinner

end GenusOs.Secrets
