import GenusOs.Engine.KeyPool
import Mathlib

/-!
# Names of vault rows and of environment variables

`vault_keys_for_env_name` lists the rows that may hold the value of a variable,
`env_names_for_vault_key` the variables whose readers find a row. The settings registry is taken to
declare no alias for the names in question, and upper and lower case are those of ASCII.
-/

namespace GenusOs.Vault

open GenusOs.Python
open GenusOs.Engine.KeyPool (validateComponent providerKey envName)

def CHANNELS : List String :=
  ["telegram", "slack", "email", "sms", "twilio", "whatsapp", "webchat", "teams"]

/-- `_VENDOR_ALIASES` -/
def VENDOR_ALIASES : List (String × String) := [("gh", "github")]

/-- `_vendor` -/
def vendor (raw : String) : String := (List.lookup raw.toLower VENDOR_ALIASES).getD raw.toLower

/-- `normalise_key`. -/
def normaliseKey (key : String) : String :=
  "/".intercalate (((stripChars key.toList).splitOn '/').map fun part =>
    (strip (String.ofList part)).toLower)

/-- `channel_field`; `none` where it raises. -/
def channelField (channel field : String) : Option String :=
  (validateComponent channel).bind fun name => (validateComponent field).map fun field =>
    "channels/" ++ name ++ "/" ++ field

/-! ## The patterns -/

/-- `[A-Z0-9]` -/
def isNameStart (c : Char) : Bool := c.isUpper || c.isDigit

/-- `[A-Z0-9_]` -/
def isNameChar (c : Char) : Bool := isNameStart c || c = '_'

/-- `[A-Z0-9][A-Z0-9_]*` -/
def isProvider : List Char → Bool
  | [] => false
  | c :: cs => isNameStart c && cs.all isNameChar

/-- `^(?P<provider>[A-Z0-9][A-Z0-9_]*?)<ending>$`, for one of several endings: the shortest provider
that leaves one. -/
def matchEnding {β : Type} (endings : List (String × β)) (name : String) : Option (String × β) :=
  (List.range' 1 name.length).findSome? fun i =>
    if isProvider (name.toList.take i) then
      (endings.find? fun ending => name.toList.drop i = ending.1.toList).map fun ending =>
        (slice name i, ending.2)
    else none

/-- `_PROVIDER_API_KEY_ENV`, with the slot. -/
def apiKeyEndings : List (String × Nat) :=
  ("_API_KEY", 1) :: (List.range' 2 15).map fun slot => ("_API_KEY_" ++ toString slot, slot)

/-- `_PROVIDER_TOKEN_ENV`. -/
def tokenEndings : List (String × Unit) := [("_API_TOKEN", ()), ("_TOKEN", ())]

/-! ## The two maps -/

/-- `_add` -/
def add (candidates : List String) (key : Option String) : List String :=
  match key with
  | some key => if key ∈ candidates then candidates else candidates ++ [key]
  | none => candidates

/-- The rule of a channel: what stands in front of a field. -/
def channelStart (channel : String) : String := "ROBOTHOR_" ++ channel.toUpper ++ "_"

/-- `vault_keys_for_env_name`. -/
def vaultKeysForEnvName (name : String) : List String :=
  let cleaned := strip name
  if cleaned = "" then []
  else
    let upper := cleaned.toUpper
    match CHANNELS.find? fun channel => startsWith upper (channelStart channel) with
    | some channel =>
      add (add [] (channelField channel (dropSlice upper (channelStart channel).length)))
        (some cleaned.toLower)
    | none =>
      let provided (found : Option (String × Nat)) : Option String :=
        found.bind fun (provider, slot) =>
          (validateComponent (vendor provider)).map fun valid => providerKey valid slot
      let candidates := add [] (provided (matchEnding apiKeyEndings upper))
      let candidates := add candidates
        (provided ((matchEnding tokenEndings upper).map fun found => (found.1, 1)))
      add candidates (some cleaned.toLower)

/-- What the rules spell for a row, before it is asked which of it lists the row. -/
def spellings (key : String) : List String :=
  match (key.toList.splitOn '/').map String.ofList with
  | [first, vendor, field] =>
    if first = "providers" then
      let slot := if startsWith field "api_key_" then dropSlice field 8 else ""
      (vendor.toUpper ++ "_API_KEY" ++ if slot = "" then "" else "_" ++ slot) ::
        if slot = "" then
          [vendor.toUpper ++ "_TOKEN", vendor.toUpper ++ "_API_TOKEN"] ++
            (VENDOR_ALIASES.filter (·.2 = vendor)).map (·.1.toUpper ++ "_TOKEN")
        else []
    else if first = "channels" then [channelStart vendor ++ field.toUpper]
    else []
  | _ => []

/-- `_claim` -/
def claim (key : String) (found : List String) (candidate : String) : List String :=
  if key ∈ vaultKeysForEnvName candidate ∧ candidate ∉ found then found ++ [candidate] else found

/-- `env_names_for_vault_key`. -/
def envNamesForVaultKey (key : String) : List String :=
  let cleaned := (strip key).toLower
  if cleaned = "" then []
  else (envName cleaned :: spellings cleaned).foldl (claim cleaned) []

end GenusOs.Vault
