import GenusOs.Python.Json
import GenusOs.Python.Str
import Mathlib

/-!
# The checklist of a run

`todo_write` replaces the whole list: `TodoList.replace` validates the new items, keeps them unless
all are completed, and answers with both lists. A list of three or more items that are all completed
and speak of no verification earns a reminder.

* `replace_reminds`: when the answer carries the reminder.
* `replace_kept`: what is stored is empty, valid, or what it was.
-/

namespace GenusOs.Engine

open GenusOs.Python

/-- Below this the reminder is not worth it. -/
def VERIFICATION_MIN_ITEMS : Nat := 3

def MAX_ITEMS : Nat := 20

/-- `sorted(VALID_STATUSES)`. -/
def VALID_STATUSES : List String := ["completed", "in_progress", "pending"]

/-- One item, in its imperative and its present continuous form. -/
structure TodoItem where
  content : String
  activeForm : String
  status : String
  deriving DecidableEq, Repr

namespace TodoItem

def toDict (item : TodoItem) : Dict :=
  [("content", .str item.content), ("active_form", .str item.activeForm),
    ("status", .str item.status)]

/-- `pyStr` is `str(v)`. -/
def fromDict (pyStr : Json → String) (data : Dict) : TodoItem where
  content := pyStr (Dict.get data "content" (.str ""))
  activeForm := pyStr (Dict.get data "active_form" (Dict.get data "activeForm" (.str "")))
  status := pyStr (Dict.get data "status" (.str "pending"))

def isCompleted (item : TodoItem) : Bool := item.status = "completed"

/-- The complaint about one item, if there is one. -/
def complaint (item : TodoItem) : Option String :=
  if strip item.content = "" then some "todo content must not be empty"
  else if strip item.activeForm = "" then some "todo active_form must not be empty"
  else if item.status ∉ VALID_STATUSES then
    some ("invalid status '" ++ item.status ++ "', must be one of: " ++
      String.intercalate ", " VALID_STATUSES)
  else none

end TodoItem

namespace TodoList

/-- The error of a proposed list, or `none` where it is valid. -/
def validate (items : List TodoItem) : Option String :=
  if items = [] then some "todos must not be empty"
  else if MAX_ITEMS < items.length then
    some ("too many items (" ++ toString items.length ++ "), max is " ++ toString MAX_ITEMS)
  else if 1 < (items.filter (·.status = "in_progress")).length then
    some "exactly zero or one todo items may be in_progress"
  else items.findSome? TodoItem.complaint

variable (lower : String → String)

/-- Three items or more, all completed, and none that speaks of verification. -/
def checkVerificationNudge (items : List TodoItem) : Bool :=
  !(items.length < VERIFICATION_MIN_ITEMS) && items.all TodoItem.isCompleted &&
    !items.any fun item => isIn "verif" (lower item.content)

def itemsJson (items : List TodoItem) : Json := .arr (items.map fun item => .obj item.toDict)

/-- The list that is stored, and the result of the tool. -/
def replace (items newItems : List TodoItem) : List TodoItem × Dict :=
  match validate newItems with
  | some error => (items, [("error", .str error)])
  | none =>
    (if newItems.all TodoItem.isCompleted then [] else newItems,
      [("oldTodos", itemsJson items), ("newTodos", itemsJson newItems)] ++
        if checkVerificationNudge lower newItems then
          [("verificationNudgeNeeded", .bool true)] else [])

/-! ## What a replacement answers and keeps -/

variable {lower} {items newItems : List TodoItem}

/-- **The reminder is asked for where the new list is valid and earns it.** -/
theorem replace_reminds :
    (Dict.get (replace lower items newItems).2 "verificationNudgeNeeded" .null).truthy =
      ((validate newItems).isNone && checkVerificationNudge lower newItems) := by
  unfold replace
  cases validate newItems with
  | some error => rfl
  | none =>
    cases checkVerificationNudge lower newItems with
    | true => rfl
    | false => rfl

/-- **A stored list is empty, valid, or the one it was.** -/
theorem replace_kept :
    (replace lower items newItems).1 = items ∨ (replace lower items newItems).1 = [] ∨
      validate (replace lower items newItems).1 = none := by
  unfold replace
  cases hv : validate newItems with
  | some error => exact .inl rfl
  | none =>
    right
    show (if _ then _ else _) = [] ∨ validate (if _ then _ else _) = none
    split
    · exact .inl rfl
    · exact .inr hv

end TodoList

end GenusOs.Engine
