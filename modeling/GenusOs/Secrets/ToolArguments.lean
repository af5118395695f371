import GenusOs.Python.JsonText
import Mathlib

/-!
# Redaction of tool arguments

`redact_tool_arguments` takes the credentials out of the arguments of a tool call before they are
recorded. A call may be wrapped: `tool_call` names the tool that runs and carries its arguments, as
an object or as the JSON text of one, and `inner_call` is how the dispatcher looks through it.

The text pass `redact` and `json.loads` are parameters.
-/

namespace GenusOs.Secrets

open Python

/-- `redact`, `json.loads` (`none` where it raises a `ValueError`) and how a float prints. -/
structure Env where
  redact : String → String
  loads : String → Option Json
  /-- A JSON text of a string has its quotes. -/
  loads_str : ∀ {s t}, loads s = some (.str t) → t.length < s.length
  floatText : Rat → String

def PLACEHOLDER : String := "<redacted>"

def MAX_ARGUMENT_DEPTH : Nat := 16

/-- Parameters that hold a credential without being named like one. -/
def SECRET_TOOL_ARGUMENTS : List (String × List String) := [("vault_set", ["value"])]

variable (env : Env)

/-- `_argument_reads_as_a_credential` -/
def argumentReadsAsACredential (name : String) : Bool :=
  let probe := name ++ "=placeholder-value-1234567890"
  env.redact probe ≠ probe

/-- The parameters of a tool whose values are taken. -/
def isSecret (tool name : String) : Bool :=
  ((List.lookup (strip tool) SECRET_TOOL_ARGUMENTS).getD []).contains name ||
    argumentReadsAsACredential env name

/-- The name of the call that a dict is: it has a string `name`, and `arguments`. -/
def innerName (arguments : Dict) : Option String :=
  match List.lookup "name" arguments with
  | some (.str name) => if (List.lookup "arguments" arguments).isSome then some name else none
  | _ => none

/-- What the recursion of `_redact_wrapped_arguments` goes down on, besides the depth. -/
def textLength : Json → Nat
  | .str s => s.length
  | _ => 0

theorem textLength_str (s : String) : textLength (.str s) = s.length := rfl

mutual

/-- `_redact_call`; `left` is how much deeper than the call its arguments may nest,
`_MAX_ARGUMENT_DEPTH - depth`. -/
def redactCall (left : Nat) (tool : String) (arguments : Dict) : Dict :=
  arguments.map fun e => (e.1,
    if isSecret env tool e.1 then .str PLACEHOLDER
    else
      match innerName arguments with
      | some name => if e.1 = "arguments" then redactWrapped left name e.2 else redactValue left e.2
      | none => redactValue left e.2)
  termination_by (2 * left + 2, 0)

/-- `_redact_wrapped_arguments`; `levels` is `_MAX_ARGUMENT_DEPTH + 1 - depth`. -/
def redactWrapped (levels : Nat) (tool : String) (value : Json) : Json :=
  match value with
  | .str s =>
    match h : env.loads s with
    | none => .str (env.redact s)
    | some (.str parsed) =>
      have := env.loads_str h
      .str ((redactWrapped (levels - 1) tool (.str parsed)).dumps env.floatText)
    | some (.obj parsed) =>
      match levels with
      | 0 => .str PLACEHOLDER
      | left + 1 => .str ((Json.obj (redactCall left tool parsed)).dumps env.floatText)
    | some _ => .str (env.redact s)
  | .obj arguments =>
    match levels with
    | 0 => redactValue 0 (.obj arguments)
    | left + 1 => .obj (redactCall left tool arguments)
  | value => redactValue levels value
  termination_by (2 * levels + 1, textLength value + 1)
  decreasing_by all_goals simp only [Prod.lex_def, textLength_str, true_and]; omega

/-- `_redact_value` -/
def redactValue (levels : Nat) (value : Json) : Json :=
  match value with
  | .str s => .str (env.redact s)
  | .obj arguments =>
    match levels with
    | 0 => .str PLACEHOLDER
    | left + 1 => .obj (redactCall left "" arguments)
  | .arr items =>
    match levels with
    | 0 => .str PLACEHOLDER
    | left + 1 => .arr (items.map fun item => redactValue left item)
  | value => value
  termination_by (2 * levels + 1, 0)

end

/-! ## Its cases -/

variable {env} {levels left : Nat} {tool s : String} {d : Dict}

theorem redactValue_str : redactValue env levels (.str s) = .str (env.redact s) := by
  rw [redactValue]

theorem redactValue_obj_zero : redactValue env 0 (.obj d) = .str PLACEHOLDER := by
  rw [redactValue]

theorem redactValue_obj : redactValue env (left + 1)
    (.obj d) = .obj (redactCall env left "" d) := by
  rw [redactValue]

theorem redactValue_arr_zero {items : List Json} :
    redactValue env 0 (.arr items) = .str PLACEHOLDER := by
  rw [redactValue]

theorem redactValue_arr {items : List Json} :
    redactValue env (left + 1) (.arr items) =
      .arr (items.map fun item => redactValue env left item) := by
  rw [redactValue]

theorem redactWrapped_obj_zero : redactWrapped env 0 tool (.obj d) = .str PLACEHOLDER := by
  rw [redactWrapped]
  exact redactValue_obj_zero

theorem redactWrapped_obj :
    redactWrapped env (left + 1) tool (.obj d) = .obj (redactCall env left tool d) := by
  rw [redactWrapped]

theorem redactWrapped_arr {items : List Json} :
    redactWrapped env levels tool (.arr items) = redactValue env levels (.arr items) := by
  rw [redactWrapped] <;> nofun

theorem redactWrapped_text_zero (h : env.loads s = some (.obj d)) :
    redactWrapped env 0 tool (.str s) = .str PLACEHOLDER := by
  rw [redactWrapped]
  split <;> simp_all

theorem redactWrapped_text (h : env.loads s = some (.obj d)) :
    redactWrapped env (left + 1) tool (.str s) =
      .str ((Json.obj (redactCall env left tool d)).dumps env.floatText) := by
  rw [redactWrapped]
  split <;> simp_all

theorem redactWrapped_textOfText {t : String} (h : env.loads s = some (.str t)) :
    redactWrapped env levels tool (.str s) =
      .str ((redactWrapped env (levels - 1) tool (.str t)).dumps env.floatText) := by
  rw [redactWrapped]
  split <;> simp_all

variable (env)

/-- `redact_tool_arguments` -/
def redactToolArguments (tool : String) : Json → Json
  | .obj arguments => .obj (redactCall env MAX_ARGUMENT_DEPTH tool arguments)
  | arguments => arguments

/-! ## The call that runs -/

def WRAPPER_TOOL : String := "tool_call"

/-- `explicit_arguments` -/
def explicitArguments : Json → Option Dict
  | .obj arguments => some arguments
  | .str s =>
    match env.loads s with
    | some (.obj arguments) => some arguments
    | _ => none
  | _ => none

/-- `wrapped_arguments`; a missing value is null. -/
def wrappedArguments : Json → Option Dict
  | .null | .str "" => some []
  | value => explicitArguments env value

inductive MalformedToolCall | name | wrapper | arguments
  deriving DecidableEq, Repr

/-- `unwrap` -/
def unwrap (arguments : Dict) : Except MalformedToolCall (String × Dict) :=
  match List.lookup "name" arguments with
  | some (.str name) =>
    if strip name = "" then .error .name
    else if strip name = WRAPPER_TOOL then .error .wrapper
    else
      match wrappedArguments env (Dict.get arguments "arguments" .null) with
      | none => .error .arguments
      | some inner => .ok (strip name, inner)
  | _ => .error .name

/-- `inner_call` -/
def innerCall (tool : String) (arguments : Dict) : String × Dict :=
  if tool ≠ WRAPPER_TOOL then (tool, arguments)
  else
    match List.lookup "name" arguments with
    | some (.str name) =>
      if strip name = "" ∨ strip name = WRAPPER_TOOL then (tool, arguments)
      else (strip name, (wrappedArguments env (Dict.get arguments "arguments" .null)).getD [])
    | _ => (tool, arguments)

end GenusOs.Secrets
