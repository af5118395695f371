import GenusOs.Library.Words
import GenusOs.Python.JsonText
import GenusOs.Python.Text
import Mathlib

/-!
# A loop that varies its arguments

`VariantTracker` groups the calls of a run into families by a coarse signature, and counts in each
how many calls in a row have returned nothing that the family had not returned before.
-/

namespace GenusOs.Engine.RepeatVariants

open Python

/-- What is called of the standard library. -/
structure Lib where
  /-- `str.lower` -/
  lower : String → String
  /-- `str` of a value that is not a string. -/
  str : Json → String
  /-- `repr` of a float, in `json.dumps`. -/
  floatText : Rat → String
  /-- The network location and the path of `urlparse`, where it does not raise. -/
  urlparse : String → Option (String × String)
  /-- The hexadecimal SHA-256 of a text. -/
  digest : String → String

def VARIANT_TOOLS : List String :=
  ["exec", "read_file", "list_directory", "search_files", "web_search", "web_fetch"]

def REFUSABLE_TOOLS : List String := ["exec"]

def EXACT_SIGNATURE_TOOLS : List String := ["exec", "read_file", "list_directory", "web_fetch"]

def SIGNATURE_MATCH : Rat := 3 / 5

def RESULT_NOVELTY : Rat := 17 / 20

def NOTE_AT : Nat := 3

def REFUSE_AT : Nat := 5

def MAX_FAMILIES : Nat := 200

def MAX_FINGERPRINTS : Nat := 8

def MAX_RESULT_CHARS : Nat := 20000

def ANSWER_FIELDS : List String :=
  ["stdout", "stderr", "error", "exit_code", "content", "matches", "entries", "count", "truncated",
    "results", "text"]

def SPOKEN_FIELDS : List String := ["stdout", "stderr", "error"]

def SHELL_OPERATORS : List String :=
  ["|", "||", "&&", ";", "&", ">", ">>", "<", "<<", "2>&1", "1>&2"]

def STOPWORDS : List String :=
  ["the", "and", "for", "with", "how", "why", "what", "where", "when",
    "this", "that", "from", "into", "are", "was", "were", "not", "you",
    "your", "its", "can", "does", "did", "get", "use", "using", "about"]

/-! ## Signatures -/

/-- `[a-z0-9_]` -/
def isWordChar (c : Char) : Bool := ('a' ≤ c && c ≤ 'z') || ('0' ≤ c && c ≤ '9') || c = '_'

/-- `re.findall(r"[a-z0-9_]+", text)` -/
def wordRuns (text : String) : List String :=
  (words (fun c => !isWordChar c) text.toList).map String.ofList

/-- `word.endswith(end)` -/
def endsWith (word ending : String) : Bool := ending.toList.isSuffixOf word.toList

/-- `_stem` -/
def stem (word : String) : String :=
  if 4 < word.toList.length ∧ endsWith word "s" ∧
      ¬ (endsWith word "ss" ∨ endsWith word "us" ∨ endsWith word "is") then
    String.ofList word.toList.dropLast
  else word

variable (lib : Lib)

/-- `_words` -/
def contentWords (text : String) (limit : Nat := 12) : List String :=
  let found := (wordRuns (lib.lower text)).filter (3 ≤ ·.toList.length)
  let seen := found.foldl (fun seen word =>
    if stem word ∈ STOPWORDS ∨ stem word ∈ seen then seen else seen ++ [stem word]) []
  (seen.insertionSort (· ≤ ·)).take limit

/-- `\s*(?:&&|;)\s*` at the head, and what follows it. -/
def afterSeparator (cs : List Char) : Option (List Char) :=
  match cs.dropWhile isSpace with
  | '&' :: '&' :: rest => some (rest.dropWhile isSpace)
  | ';' :: rest => some (rest.dropWhile isSpace)
  | _ => none

/-- `_CD_PREFIX_RE.sub("", text)`: the directory is the longest one that a separator follows. -/
def dropCd (cs : List Char) : List Char :=
  match cs.dropWhile isSpace with
  | 'c' :: 'd' :: blank :: rest =>
    if isSpace blank then
      let target := rest.dropWhile isSpace
      let longest := (target.takeWhile (!isSpace ·)).length
      ((List.range longest).reverse.findSome? fun n => afterSeparator (target.drop (n + 1))).getD cs
    else cs
  | _ => cs

/-- The text before the first of `||`, `&&`, `|` and `;`. -/
def beforeOperator : List Char → Option (List Char)
  | [] => none
  | '|' :: _ => some []
  | ';' :: _ => some []
  | '&' :: '&' :: _ => some []
  | c :: cs => (beforeOperator cs).map (c :: ·)

/-- `_SEGMENT_RE.split(text, maxsplit=1)[0]` -/
def firstSegment (cs : List Char) : List Char :=
  match beforeOperator cs with
  | some segment => rstripChars segment
  | none => cs

/-- `_command_head` -/
def commandHead (command : String) : List String :=
  let segment := firstSegment (dropCd (stripChars command.toList))
  let tokens := ((shlexSplit segment).getD (words isSpace segment)).map String.ofList
  tokens.filter fun t => !startsWith t "-" && !SHELL_OPERATORS.contains t

/-- `str(args.get(key) or "")` -/
def argText (args : Dict) (key : String) : String :=
  match List.lookup key args with
  | some (.str s) => s
  | some v => if v.truthy then lib.str v else ""
  | none => ""

/-- `text.rstrip("/")` -/
def rstripSlash (text : String) : String := String.ofList (text.toList.rdropWhile (· = '/'))

abbrev Signature := List String

/-- `or None` -/
def orNone (tokens : Signature) : Option Signature := if tokens = [] then none else some tokens

/-- `signature`; `urlparse` may raise. -/
def signature (toolName : String) (args : Dict) : Except String (Option Signature) :=
  if toolName = "exec" then .ok (orNone (commandHead (argText lib args "command")))
  else if toolName = "read_file" ∨ toolName = "list_directory" then
    let path := rstripSlash (argText lib args "path")
    .ok (if path = "" then none else some [path])
  else if toolName = "web_fetch" then
    let url := argText lib args "url"
    if url = "" then .ok none
    else match lib.urlparse url with
      | none => .error "ValueError"
      | some (netloc, path) => .ok (some [lib.lower netloc, rstripSlash path])
  else if toolName = "web_search" then .ok (orNone (contentWords lib (argText lib args "query")))
  else if toolName = "search_files" then
    let path := rstripSlash (argText lib args "path")
    let stem := contentWords lib (argText lib args "pattern")
    .ok (if stem = [] then none else some (path :: stem))
  else .ok none

/-- `_jaccard` -/
def jaccard (a b : Finset String) : Rat :=
  if a = ∅ ∨ b = ∅ then (if a = b then 1 else 0)
  else ((a ∩ b).card : Rat) / (a ∪ b).card

/-- `same_family`, of two signatures. -/
def sameFamily (toolName : String) (a b : Signature) : Bool :=
  if toolName ∈ EXACT_SIGNATURE_TOOLS then a = b
  else SIGNATURE_MATCH ≤ jaccard a.toFinset b.toFinset

/-! ## Results -/

/-- `value is None or value == "" or value == [] or value == {}` -/
def isBlankAnswer : Json → Bool
  | .null => true
  | .str s => s = ""
  | .arr items => items.isEmpty
  | .obj entries => entries.isEmpty
  | _ => false

/-- A value in the text of a result. -/
def answerText : Json → String
  | .str s => s
  | v => v.dumps lib.floatText

/-- `_result_text` -/
def resultText (result : Option Dict) : String :=
  match result with
  | none => ""
  | some result =>
    let values := ANSWER_FIELDS.filterMap fun key => List.lookup key result
    slice
      (" ".intercalate ((values.filter (!isBlankAnswer ·)).map (answerText lib))) MAX_RESULT_CHARS

/-- `_is_silent` -/
def isSilent (toolName : String) (result : Option Dict) : Bool :=
  if toolName ∉ REFUSABLE_TOOLS then true
  else match result with
    | none => true
    | some result => !SPOKEN_FIELDS.any fun field => strip (argText lib result field) ≠ ""

/-- The tokens of a text that a fingerprint keeps. -/
def shingle (text : String) : Finset String := (wordRuns (lib.lower text)).toFinset

/-! ## The tracker -/

/-- `_Family` -/
structure Family where
  toolName : String
  tokens : Signature
  calls : Nat := 0
  streak : Nat := 0
  silent : Bool := false
  digests : Finset String := ∅
  fingerprints : List (Finset String) := []
  noted : Bool := false
  deriving DecidableEq

namespace Family

variable (f : Family)

def novel (text : String) : Bool :=
  lib.digest text ∉ f.digests ∧ f.fingerprints.all fun seen =>
    jaccard (shingle lib text) seen < RESULT_NOVELTY

def remember (text : String) : Family :=
  let fingerprints := f.fingerprints ++ [shingle lib text]
  { f with
    digests := insert (lib.digest text) f.digests
    fingerprints := fingerprints.drop (fingerprints.length - MAX_FINGERPRINTS) }

/-- What `observe` does to the family of the call. -/
def observe (toolName : String) (result : Option Dict) : Family :=
  let f := { f with calls := f.calls + 1, silent := isSilent lib toolName result }
  let text := resultText lib result
  if f.novel lib text then { f with streak := 1, noted := false }.remember lib text
  else { f with streak := f.streak + 1 }

/-- A refusal and `spend` start the count anew. -/
def spent : Family := { f with streak := 0, noted := false }

/-- The family of a call. -/
def asks (toolName : String) (tokens : Signature) : Bool :=
  f.toolName = toolName && sameFamily toolName f.tokens tokens

def refusalNote : String :=
  "You have run " ++ toString f.calls ++ " variations of `" ++ " ".intercalate f.tokens ++
    "` and the last " ++ toString f.streak ++
    " returned nothing you did not already have. Varying " ++
    "the arguments is not varying the approach — change what the command exercises, or write " ++
    "what the task asked for with what you know now."

def repeatNote : String :=
  "[SYSTEM] Your last " ++ toString f.streak ++ " `" ++ f.toolName ++ "` calls around `" ++
    " ".intercalate f.tokens ++
    "` differed only in their arguments and returned nothing new. This is " ++
    "the same step, repeated. Change the approach, or write your current best answer to the " ++
    "path the task named and improve it from there."

end Family

inductive Verdict
  | noted (note : String)
  | refused (note : String) (similarCalls : Nat)
  deriving DecidableEq

def Verdict.isRefusal : Verdict → Bool
  | .noted _ => false
  | .refused _ _ => true

/-- `VariantTracker.families` -/
abbrev Tracker := List Family

/-- The first that meets `p` is written. -/
def updateFirst (p : Family → Bool) (write : Family → Family) : Tracker → Tracker
  | [] => []
  | f :: t => if p f then write f :: t else f :: updateFirst p write t

namespace Tracker

variable (t : Tracker)

/-- `_find` -/
def find (toolName : String) (tokens : Signature) :
    Option Family := t.find? (·.asks toolName tokens)

/-- `families.remove(min(families, key=calls))`, where there are too many. -/
def makeRoom : Tracker :=
  if MAX_FAMILIES ≤ t.length then
    match t.argmin Family.calls with
    | some least => t.erase least
    | none => t
  else t

/-- The family of a call, opened where there is none. -/
def withFamily (toolName : String) (tokens : Signature) : Tracker :=
  if (t.find toolName tokens).isSome then t
    else makeRoom t ++ [{ toolName := toolName, tokens := tokens }]

/-- `verdict` -/
def verdict (toolName : String) (args : Dict) : Except String (Option Verdict × Tracker) :=
  if toolName ∉ VARIANT_TOOLS then .ok (none, t)
  else match signature lib toolName args with
    | .error error => .error error
    | .ok none => .ok (none, t)
    | .ok (some tokens) =>
      match t.find toolName tokens with
      | none => .ok (none, t)
      | some f =>
        let occurrence := f.streak + 1
        if REFUSE_AT ≤ occurrence ∧ toolName ∈ REFUSABLE_TOOLS ∧ ¬ f.silent then
          .ok (some (.refused f.refusalNote f.calls),
            updateFirst (·.asks toolName tokens) Family.spent t)
        else if NOTE_AT ≤ occurrence ∧ ¬ f.noted then
          .ok (some (.noted f.repeatNote),
            updateFirst (·.asks toolName tokens) (fun f => { f with noted := true }) t)
        else .ok (none, t)

/-- `observe` -/
def observe (toolName : String) (args : Dict) (result : Option Dict) : Except String Tracker :=
  if toolName ∉ VARIANT_TOOLS then .ok t
  else match signature lib toolName args with
    | .error error => .error error
    | .ok none => .ok t
    | .ok (some tokens) => .ok (updateFirst (·.asks toolName tokens)
        (fun f => f.observe lib toolName result) (t.withFamily toolName tokens))

/-- `spend` -/
def spend (toolName : String) (args : Dict) : Except String Tracker :=
  match signature lib toolName args with
  | .error error => .error error
  | .ok none => .ok t
  | .ok (some tokens) => .ok (updateFirst (·.asks toolName tokens) Family.spent t)

end Tracker

end GenusOs.Engine.RepeatVariants
