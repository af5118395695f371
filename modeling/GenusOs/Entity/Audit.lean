import GenusOs.Python.Json
import GenusOs.Python.Str
import Mathlib

/-!
# Payment-safe audit serialization

`redact_for_audit` over what an audit payload may hold. Lower-casing and the test for a decimal
digit, which Python takes from Unicode, are parameters.
-/

namespace GenusOs.Entity

open GenusOs.Python

/-- What the redaction takes from the platform. -/
structure TextPlatform where
  lower : String → String
  isDecimal : Char → Bool

/-- A value to be redacted. Keys of a mapping are the texts `str` gives them, and `text` is how the
source prints a `Decimal`, a `datetime` or a `date`. -/
inductive AuditInput where
  | secret
  | null
  | bool (b : Bool)
  | int (n : Int)
  | float (q : Rat)
  | str (s : String)
  | text (s : String)
  | enum (value : AuditInput)
  | mapping (entries : List (String × AuditInput))
  | sequence (items : List AuditInput)
  | other (typeName : String)

def REDACTED : String := "[REDACTED]"

def SENSITIVE_KEYS : List String :=
  ["account_number", "card_number", "cardnumber", "cryptogram", "cvc", "cvc2", "cvv", "cvv2", "pan",
    "password", "payment_method_token", "provider_authorization_token",
    "provider_payment_method_token", "provider_reference", "provider_token",
    "provider_virtual_card_token", "security_code", "secret"]

variable (env : TextPlatform)

/-! ## Keys -/

def isLowerAlnum (c : Char) : Bool := c.isLower || c.isDigit

/-- `re.sub(r"([a-z0-9])([A-Z])", r"\1_\2", …)`. -/
def snakeChars : List Char → List Char
  | c :: d :: rest =>
    if isLowerAlnum c && d.isUpper then c :: '_' :: snakeChars (d :: rest)
    else c :: snakeChars (d :: rest)
  | cs => cs

/-- `re.sub(r"[^a-z0-9]+", "_", …)`; `inRun` while a run is being replaced. -/
def collapseChars (inRun : Bool) : List Char → List Char
  | [] => []
  | c :: rest =>
    if isLowerAlnum c then c :: collapseChars false rest
    else if inRun then collapseChars true rest
    else '_' :: collapseChars true rest

def normaliseKey (key : String) : String :=
  let snakeCase := String.ofList (snakeChars (strip key).toList)
  let collapsed := collapseChars false (env.lower snakeCase).toList
  let isUnderscore := fun c : Char => decide (c = '_')
  String.ofList ((collapsed.dropWhile isUnderscore).reverse.dropWhile isUnderscore).reverse

/-! ## Digits -/

/-- `(?:\d[ -]?){12,19}(?!\d)` from here on, after `n` digits. -/
def digitRun (n : Nat) : List Char → Bool
  | [] => 12 ≤ n && n ≤ 19
  | c :: cs =>
    if env.isDecimal c then n < 19 && digitRun (n + 1) cs
    else (12 ≤ n && n ≤ 19) ||
      (0 < n && (c = ' ' || c = '-') && (cs.head?.any env.isDecimal) && digitRun n cs)

/-- `_PAYMENT_DIGITS` matches somewhere; `afterDigit` is the look-behind. Every match holds 12 to
19 digits, so the count that follows in the source always agrees. -/
def containsPaymentDigits (afterDigit : Bool) : List Char → Bool
  | [] => false
  | c :: cs =>
    (!afterDigit && env.isDecimal c && digitRun env 0 (c :: cs)) ||
      containsPaymentDigits (env.isDecimal c) cs

/-! ## Redaction -/

def isSensitive (fieldName : Option String) : Bool :=
  fieldName.any fun name => SENSITIVE_KEYS.contains (normaliseKey env name)

mutual

def redactForAudit (fieldName : Option String) : AuditInput → Json
  | .secret => .str REDACTED
  | .null => if isSensitive env fieldName then .str REDACTED else .null
  | .bool b => if isSensitive env fieldName then .str REDACTED else .bool b
  | .int n => if isSensitive env fieldName then .str REDACTED else .int n
  | .float q => if isSensitive env fieldName then .str REDACTED else .float q
  | .str s =>
    if isSensitive env fieldName || containsPaymentDigits env false s.toList then .str REDACTED
    else .str s
  | .text s => if isSensitive env fieldName then .str REDACTED else .str s
  | .enum value => redactForAudit fieldName value
  | .mapping entries =>
    if isSensitive env fieldName then .str REDACTED else .obj (redactEntries [] entries)
  | .sequence items =>
    if isSensitive env fieldName then .str REDACTED else .arr (redactItems items)
  | .other typeName =>
    if isSensitive env fieldName then .str REDACTED else .str ("<" ++ typeName ++ ">")

/-- The dict comprehension; a repeated key keeps its first place and its last value. -/
def redactEntries (done : Dict) : List (String × AuditInput) → Dict
  | [] => done
  | (key, item) :: rest => redactEntries (done.set key (redactForAudit (some key) item)) rest

def redactItems : List AuditInput → List Json
  | [] => []
  | item :: rest => redactForAudit none item :: redactItems rest

end

end GenusOs.Entity
