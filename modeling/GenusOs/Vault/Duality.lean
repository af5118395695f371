import GenusOs.Vault.Naming
import Mathlib

/-!
# The two maps of names

A row is claimed by names that list it. The other way round, the spellings that are tried for a row
leave out some of those that an alias of its vendor gives.

* `mem_envNames_iff`: a name is given for a row where it is tried and lists the row.
* `naming_dual_iff`: for which names and rows the two maps agree.
-/

namespace GenusOs.Vault

open GenusOs.Python
open GenusOs.Engine.KeyPool (validateComponent providerKey envName)

variable {name key channel field : String} {c : Char} {slot : Nat}

/-! ## Characters of names -/

/-- An upper-case name of an environment variable. -/
structure UpperName (name : String) : Prop where
  ne : name ≠ ""
  chars : ∀ c ∈ name.toList, isNameChar c = true

instance (name : String) : Decidable (UpperName name) :=
  decidable_of_iff (name ≠ "" ∧ ∀ c ∈ name.toList, isNameChar c = true)
    ⟨fun h => ⟨h.1, h.2⟩, fun h => ⟨h.ne, h.chars⟩⟩

theorem isNameChar_cases (h : isNameChar c = true) :
    (65 ≤ c.toNat ∧ c.toNat ≤ 90) ∨ (48 ≤ c.toNat ∧ c.toNat ≤ 57) ∨ c = '_' := by
  simp only [isNameChar, isNameStart, Bool.or_eq_true, decide_eq_true_eq] at h
  rcases h with (h | h) | h
  · simp only [Char.isUpper, decide_eq_true_eq] at h
    exact .inl ⟨UInt32.le_iff_toNat_le.mp h.1, UInt32.le_iff_toNat_le.mp h.2⟩
  · simp only [Char.isDigit, Bool.and_eq_true, decide_eq_true_eq] at h
    exact .inr (.inl ⟨UInt32.le_iff_toNat_le.mp h.1, UInt32.le_iff_toNat_le.mp h.2⟩)
  · exact .inr (.inr h)

theorem nameChar_not_space (h : isNameChar c = true) : isSpace c = false := by
  rcases isNameChar_cases h with h | h | rfl
  · simp only [isSpace]
    grind
  · simp only [isSpace]
    grind
  · decide

theorem nameChar_upper (h : isNameChar c = true) : c.toUpper = c := by
  apply Char.toUpper_eq_of_not_isLower
  intro hlower
  simp only [Char.isLower, Bool.and_eq_true, decide_eq_true_eq, ge_iff_le] at hlower
  have hle : 97 ≤ c.toNat := UInt32.le_iff_toNat_le.mp hlower.1
  rcases isNameChar_cases h with h | h | rfl
  · omega
  · omega
  · exact absurd hle (by decide)

theorem nameChar_lower_ne (h : isNameChar c = true) : c.toLower ≠ '/' := by
  intro hslash
  have hupper := congrArg Char.toUpper hslash
  rw [Char.toUpper_toLower_eq_toUpper, nameChar_upper h] at hupper
  rw [hupper] at h
  exact absurd h (by decide)

theorem isSpace_toLower (h : isSpace c = false) : isSpace c.toLower = false := by
  by_cases hupper : c.isUpper = true
  · have hlower : c.toLower.isLower = true := by
      rw [Char.isLower_toLower_eq_isAlpha, Char.isAlpha, hupper]
      rfl
    simp only [Char.isLower, Bool.and_eq_true, decide_eq_true_eq, ge_iff_le] at hlower
    have hmin : 97 ≤ c.toLower.toNat := UInt32.le_iff_toNat_le.mp hlower.1
    have hmax : c.toLower.toNat ≤ 122 := UInt32.le_iff_toNat_le.mp hlower.2
    simp only [isSpace]
    grind
  · rw [Char.toLower_eq_of_not_isUpper hupper]
    exact h

/-! ## Upper and lower case -/

theorem toUpper_toLower (s : String) : s.toLower.toUpper = s.toUpper := by
  apply String.toList_inj.mp
  simp [String.toUpper, String.toLower, Function.comp_def]

theorem toLower_toLower (s : String) : s.toLower.toLower = s.toLower := by
  apply String.toList_inj.mp
  simp [String.toLower, Function.comp_def]

theorem toUpper_of_nameChars (h : ∀ c ∈ name.toList, isNameChar c = true) :
    name.toUpper = name := by
  apply String.toList_inj.mp
  rw [String.toUpper, String.toList_map]
  exact (List.map_congr_left fun c hc => nameChar_upper (h c hc)).trans (List.map_id _)

theorem strip_of_nameChars (h : ∀ c ∈ name.toList, isNameChar c = true) : strip name = name := by
  rw [strip, stripChars_eq_self fun c hc => nameChar_not_space (h c hc), String.ofList_toList]

theorem strip_toLower_of_nameChars (h : ∀ c ∈ name.toList, isNameChar c = true) :
    strip name.toLower = name.toLower := by
  have hchars : ∀ c ∈ name.toLower.toList, isSpace c = false := by
    intro c hc
    rw [String.toLower, String.toList_map] at hc
    obtain ⟨d, hd, rfl⟩ := List.mem_map.mp hc
    exact isSpace_toLower (nameChar_not_space (h d hd))
  rw [strip, stripChars_eq_self hchars, String.ofList_toList]

/-- `env_name` takes the literal spelling back to the name. -/
theorem envName_toLower (h : UpperName name) : envName name.toLower = name := by
  apply String.toList_inj.mp
  rw [envName, String.toList_ofList, String.toLower, String.toList_map, List.map_map]
  refine (List.map_congr_left fun c hc => ?_).trans (List.map_id _)
  rw [Function.comp_apply, if_neg (nameChar_lower_ne (h.chars c hc)),
    Char.toUpper_toLower_eq_toUpper]
  exact nameChar_upper (h.chars c hc)

/-! ## Components -/

theorem validateComponent_eq {value valid : String} (h : validateComponent value = some valid) :
    valid = (strip value).toLower ∧ '/' ∉ valid.toList := by
  unfold validateComponent at h
  dsimp only at h
  split at h
  · cases h
  · next c cs hchars =>
    split at h
    · next hall =>
      cases h
      refine ⟨rfl, fun hmem => ?_⟩
      rw [hchars] at hmem
      simp only [Bool.and_eq_true, List.all_eq_true] at hall
      rcases List.mem_cons.mp hmem with heq | hmem
      · rw [← heq] at hall
        exact absurd hall.1 (by decide)
      · exact absurd (hall.2 _ hmem) (by decide)
    · cases h

/-! ## Membership -/

theorem mem_add {candidates : List String} {found : Option String} :
    key ∈ add candidates found ↔ key ∈ candidates ∨ found = some key := by
  unfold add
  cases found with
  | none => simp
  | some k =>
    dsimp only
    split
    · next hmem =>
      refine ⟨.inl, fun h => h.elim id fun heq => ?_⟩
      rw [← Option.some.inj heq]
      exact hmem
    · simp [eq_comm]

theorem mem_foldl_claim {cleaned : String} (candidates found : List String) :
    name ∈ candidates.foldl (claim cleaned) found ↔
      name ∈ found ∨ name ∈ candidates ∧ cleaned ∈ vaultKeysForEnvName name := by
  induction candidates generalizing found with
  | nil => simp
  | cons candidate candidates ih =>
    have hclaim : name ∈ claim cleaned found candidate ↔
        name ∈ found ∨ name = candidate ∧ cleaned ∈ vaultKeysForEnvName name := by
      unfold claim
      split
      · next h =>
        rw [List.mem_append, List.mem_singleton]
        refine or_congr_right ⟨fun heq => ⟨heq, heq ▸ h.1⟩, fun h => h.1⟩
      · next h =>
        refine ⟨.inl, fun hor => hor.elim id ?_⟩
        rintro ⟨rfl, hmem⟩
        by_contra hnot
        exact h ⟨hmem, hnot⟩
    rw [List.foldl_cons, ih, hclaim, List.mem_cons, or_assoc, ← or_and_right]

/-- **A name is given for a row where it is tried and lists the row.** -/
theorem mem_envNames_iff (hkey : (strip key).toLower = key) (hne : key ≠ "") :
    name ∈ envNamesForVaultKey key ↔
      (name = envName key ∨ name ∈ spellings key) ∧ key ∈ vaultKeysForEnvName name := by
  unfold envNamesForVaultKey
  dsimp only
  rw [hkey, if_neg hne, mem_foldl_claim, List.mem_cons]
  simp

/-- A matched name is its provider with one of the endings. -/
theorem matchEnding_eq {β : Type} {endings : List (String × β)} {provider : String} {b : β}
    (h : matchEnding endings name = some (provider, b)) :
    ∃ ending, (ending, b) ∈ endings ∧ name = provider ++ ending := by
  obtain ⟨i, -, h⟩ := List.exists_of_findSome?_eq_some h
  split at h
  · obtain ⟨⟨ending, b'⟩, hfind, heq⟩ := Option.map_eq_some_iff.mp h
    cases heq
    refine ⟨ending, List.mem_of_find?_eq_some hfind, String.toList_inj.mp ?_⟩
    have hdrop : name.toList.drop i = ending.toList := by simpa using List.find?_some hfind
    rw [slice, String.toList_append, String.toList_ofList, ← hdrop, List.take_append_drop]
  · cases h

/-! ## The spellings of a row -/

theorem parts_of_path {first second third : String} (h₁ : '/' ∉ first.toList)
    (h₂ : '/' ∉ second.toList) (h₃ : '/' ∉ third.toList) :
    ((first ++ "/" ++ second ++ "/" ++ third).toList.splitOn '/').map String.ofList =
      [first, second, third] := by
  have hpath : (first ++ "/" ++ second ++ "/" ++ third).toList =
      first.toList ++ '/' :: (second.toList ++ '/' :: third.toList) := by simp
  rw [hpath, List.splitOn_append_cons_self_of_not_mem h₁,
    List.splitOn_append_cons_self_of_not_mem h₂, List.splitOn_eq_singleton h₃]
  simp

/-- What a slot adds to the name. -/
def slotEnding (slot : Nat) : String := if slot = 1 then "" else "_" ++ toString slot

theorem toString_nat_ne (n : Nat) : toString n ≠ "" := by
  intro h
  have hdigits : (Nat.repr n).toList = [] := congrArg String.toList h
  rw [Nat.toList_repr] at hdigits
  exact Nat.toDigits_ne_nil hdigits

theorem slash_notMem_digits (n : Nat) : '/' ∉ (toString n).toList := fun hmem =>
  absurd (toString_int_chars (n : Int) '/' hmem) (by decide)

/-- The spellings that are tried for the row of a provider. -/
theorem spellings_provider {valid : String} (h : '/' ∉ valid.toList) (slot : Nat) :
    spellings (providerKey valid slot) =
      (valid.toUpper ++ "_API_KEY" ++ slotEnding slot) ::
        if slot = 1 then
          [valid.toUpper ++ "_TOKEN", valid.toUpper ++ "_API_TOKEN"] ++
            (VENDOR_ALIASES.filter (·.2 = valid)).map (·.1.toUpper ++ "_TOKEN")
        else [] := by
  have hfirst : "providers/" = "providers" ++ "/" := by decide
  unfold providerKey spellings slotEnding
  by_cases hslot : slot = 1
  · have hparts := @parts_of_path "providers" valid "api_key" (by decide) h (by decide)
    have hstart : startsWith "api_key" "api_key_" = false := by decide
    rw [if_pos hslot, hfirst, hparts]
    dsimp only
    rw [if_pos rfl, hstart, if_neg Bool.false_ne_true, if_pos rfl, if_pos rfl, if_pos hslot,
      if_pos hslot]
  · have hfield : '/' ∉ ("api_key_" ++ toString slot).toList := by
      rw [String.toList_append, List.mem_append, not_or]
      exact ⟨by decide, slash_notMem_digits slot⟩
    have hparts := @parts_of_path "providers" valid _ (by decide) h hfield
    have hstart : startsWith ("api_key_" ++ toString slot) "api_key_" = true := by
      unfold startsWith
      rw [String.toList_append, List.isPrefixOf_iff_prefix]
      exact List.prefix_append _ _
    have hdrop : dropSlice ("api_key_" ++ toString slot) 8 = toString slot := by
      unfold dropSlice
      rw [String.toList_append, show 8 = "api_key_".toList.length by decide, List.drop_left,
        String.ofList_toList]
    rw [if_neg hslot, hfirst, hparts]
    dsimp only
    rw [if_pos rfl, hstart, if_pos rfl, hdrop, if_neg (toString_nat_ne slot),
      if_neg (toString_nat_ne slot), if_neg hslot, if_neg hslot]

/-- The spelling that is tried for the row of a channel. -/
theorem spellings_channel (h₁ : '/' ∉ channel.toList) (h₂ : '/' ∉ field.toList) :
    spellings ("channels/" ++ channel ++ "/" ++ field) =
      [channelStart channel ++ field.toUpper] := by
  have hfirst : "channels/" = "channels" ++ "/" := by decide
  have hparts := @parts_of_path "channels" channel field (by decide) h₁ h₂
  unfold spellings
  rw [hfirst, hparts]
  dsimp only
  rw [if_neg (by decide), if_pos rfl]

/-! ## The rows of a name -/

/-- The row of a provider, by one of the two patterns. -/
def providerRow (found : Option (String × Nat)) : Option String :=
  found.bind fun x => (validateComponent (vendor x.1)).map fun valid => providerKey valid x.2

theorem vaultKeys_cases (h : UpperName name) (hkey : key ∈ vaultKeysForEnvName name) :
    key = name.toLower ∨
    (∃ channel ∈ CHANNELS, startsWith name (channelStart channel) = true ∧
      channelField channel (dropSlice name (channelStart channel).length) = some key) ∨
    providerRow (matchEnding apiKeyEndings name) = some key ∨
    providerRow ((matchEnding tokenEndings name).map fun found => (found.1, 1)) = some key := by
  unfold vaultKeysForEnvName at hkey
  dsimp only at hkey
  rw [strip_of_nameChars h.chars, if_neg h.ne, toUpper_of_nameChars h.chars] at hkey
  split at hkey
  · next channel hfind =>
    rw [mem_add, mem_add] at hkey
    rcases hkey with (hnil | hfield) | hliteral
    · cases hnil
    · have hstart := List.find?_some hfind
      exact .inr (.inl ⟨channel, List.mem_of_find?_eq_some hfind, hstart, hfield⟩)
    · exact .inl (Option.some.inj hliteral).symm
  · rw [mem_add, mem_add, mem_add] at hkey
    rcases hkey with ((hnil | hapi) | htoken) | hliteral
    · cases hnil
    · exact .inr (.inr (.inl hapi))
    · exact .inr (.inr (.inr htoken))
    · exact .inl (Option.some.inj hliteral).symm

/-! ## Rows that nobody claims -/

/-- The spellings that an alias gives and that are not tried for the row of its vendor. -/
def Unclaimed (name key : String) : Prop :=
  (∃ slot ∈ List.range' 1 16, name = "GH_API_KEY" ++ slotEnding slot ∧
    key = providerKey "github" slot) ∨
  name = "GH_API_TOKEN" ∧ key = providerKey "github" 1

theorem apiKeyEndings_eq {ending : String} (h : (ending, slot) ∈ apiKeyEndings) :
    ending = "_API_KEY" ++ slotEnding slot ∧ slot ∈ List.range' 1 16 := by
  have hall : ∀ x ∈ apiKeyEndings, x.1 = "_API_KEY" ++ slotEnding x.2 ∧ x.2 ∈ List.range' 1 16 := by
    decide +kernel
  exact hall _ h

/-- The vendor of a name's provider, as its row has it. -/
theorem providerRow_eq {provider : String} (hchars : ∀ c ∈ provider.toList, isNameChar c = true)
    (h : providerRow (some (provider, slot)) = some key) :
    (provider = "GH" ∧ key = providerKey "github" slot) ∨
    ∃ valid, '/' ∉ valid.toList ∧ valid.toUpper = provider ∧ key = providerKey valid slot := by
  obtain ⟨valid, hvalid, rfl⟩ := Option.map_eq_some_iff.mp h
  obtain ⟨hlower, hslash⟩ := validateComponent_eq hvalid
  by_cases halias : provider.toLower = "gh"
  · have hvendor : vendor provider = "github" := by
      unfold vendor
      rw [halias]
      rfl
    have hprovider : provider = "GH" := by
      rw [← toUpper_of_nameChars hchars, ← toUpper_toLower, halias]
      decide +kernel
    have hgithub : (strip "github").toLower = "github" := by decide +kernel
    rw [hvendor, hgithub] at hlower
    exact .inl ⟨hprovider, by rw [hlower]⟩
  · have hvendor : vendor provider = provider.toLower := by
      have hnone : List.lookup provider.toLower VENDOR_ALIASES = none := by
        unfold VENDOR_ALIASES
        rw [List.lookup_cons, beq_eq_false_iff_ne.mpr halias]
        rfl
      unfold vendor
      rw [hnone]
      rfl
    rw [hvendor, strip_toLower_of_nameChars hchars, toLower_toLower] at hlower
    refine .inr ⟨valid, hslash, ?_, rfl⟩
    rw [hlower, toUpper_toLower, toUpper_of_nameChars hchars]

/-- **A row that a name lists is claimed by it**, but for the spellings left out. -/
theorem spelled (h : UpperName name) (hkey : key ∈ vaultKeysForEnvName name)
    (hclaimed : ¬ Unclaimed name key) : name = envName key ∨ name ∈ spellings key := by
  rcases vaultKeys_cases h hkey with rfl | ⟨channel, hchannel, hstart, hfield⟩ | hapi | htoken
  · exact .inl (envName_toLower h).symm
  · right
    have hrest : (channelStart channel).toList ++
        (dropSlice name (channelStart channel).length).toList
        = name.toList := by
      obtain ⟨rest, hrest⟩ := List.isPrefixOf_iff_prefix.mp hstart
      rw [dropSlice, String.toList_ofList, ← String.length_toList, ← hrest, List.drop_left]
    have hchars : ∀ c ∈ (dropSlice name (channelStart channel).length).toList,
        isNameChar c = true := fun c hc =>
      h.chars c (by rw [← hrest]; exact List.mem_append_right _ hc)
    obtain ⟨channel', hvalid, hfield⟩ := Option.bind_eq_some_iff.mp hfield
    obtain ⟨field, hvalidField, rfl⟩ := Option.map_eq_some_iff.mp hfield
    obtain ⟨hlower, hslash⟩ := validateComponent_eq hvalidField
    have hchannels : ∀ channel ∈ CHANNELS, validateComponent channel = some channel := by
      decide +kernel
    obtain rfl : channel' = channel := Option.some.inj (hvalid.symm.trans (hchannels _ hchannel))
    rw [spellings_channel (validateComponent_eq hvalid).2 hslash, List.mem_singleton]
    apply String.toList_inj.mp
    rw [hlower, strip_of_nameChars hchars, toUpper_toLower, toUpper_of_nameChars hchars,
      String.toList_append, hrest]
  · right
    obtain ⟨⟨provider, slot⟩, hmatch, -⟩ := Option.bind_eq_some_iff.mp hapi
    rw [hmatch] at hapi
    obtain ⟨ending, hending, rfl⟩ := matchEnding_eq hmatch
    obtain ⟨rfl, hslot⟩ := apiKeyEndings_eq hending
    have hchars : ∀ c ∈ provider.toList, isNameChar c = true := fun c hc =>
      h.chars c (by rw [String.toList_append]; exact List.mem_append_left _ hc)
    rcases providerRow_eq hchars hapi with ⟨rfl, rfl⟩ | ⟨valid, hslash, rfl, rfl⟩
    · exact absurd (.inl ⟨slot, hslot, by rw [← String.append_assoc]; rfl, rfl⟩) hclaimed
    · rw [spellings_provider hslash, ← String.append_assoc]
      exact List.mem_cons_self
  · right
    obtain ⟨⟨provider, slot⟩, hmatch, -⟩ := Option.bind_eq_some_iff.mp htoken
    rw [hmatch] at htoken
    obtain ⟨⟨provider, u⟩, htokens, heq⟩ := Option.map_eq_some_iff.mp hmatch
    cases heq
    obtain ⟨ending, hending, rfl⟩ := matchEnding_eq htokens
    have hchars : ∀ c ∈ provider.toList, isNameChar c = true := fun c hc =>
      h.chars c (by rw [String.toList_append]; exact List.mem_append_left _ hc)
    have hor : ending = "_API_TOKEN" ∨ ending = "_TOKEN" := by
      simpa [tokenEndings] using hending
    rcases providerRow_eq hchars htoken with ⟨rfl, rfl⟩ | ⟨valid, hslash, rfl, rfl⟩
    · rcases hor with rfl | rfl
      · exact absurd (.inr ⟨by decide, rfl⟩) hclaimed
      · decide +kernel
    · rw [spellings_provider hslash, if_pos rfl]
      rcases hor with rfl | rfl
      · simp
      · simp

/-! ## The duality -/

/-- No part of a path begins or ends with a space, so the path does not. -/
theorem stripChars_intercalate {parts : List (List Char)}
    (h : ∀ part ∈ parts, stripChars part = part) :
    stripChars (['/'].intercalate parts) = ['/'].intercalate parts := by
  induction parts with
  | nil => rfl
  | cons part parts ih =>
    have hrest := stripChars_eq_self_iff.mp (ih fun p hp => h p (List.mem_cons_of_mem _ hp))
    have hpart := stripChars_eq_self_iff.mp (h part List.mem_cons_self)
    by_cases hnil : parts = []
    · subst hnil
      rw [List.intercalate_singleton]
      exact h part List.mem_cons_self
    · rw [List.intercalate_cons_of_ne_nil hnil, List.append_assoc, List.singleton_append]
      have hslash : isSpace '/' = false := by decide
      refine stripChars_eq_self_iff.mpr ⟨fun c hc => ?_, fun c hc => ?_⟩
      · cases part with
        | nil => exact Option.some.inj hc ▸ hslash
        | cons d part => exact hpart.1 c hc
      · rw [List.getLast?_append_of_ne_nil _ (by simp)] at hc
        cases htail : ['/'].intercalate parts with
        | nil =>
          rw [htail] at hc
          exact Option.some.inj hc ▸ hslash
        | cons d tail =>
          rw [htail, List.getLast?_cons_cons, ← htail] at hc
          exact hrest.2 c hc

theorem mem_intercalate {parts : List (List Char)} {c : Char}
    (h : c ∈ ['/'].intercalate parts) : c = '/' ∨ ∃ part ∈ parts, c ∈ part := by
  induction parts with
  | nil => cases h
  | cons part parts ih =>
    by_cases hnil : parts = []
    · subst hnil
      rw [List.intercalate_singleton] at h
      exact .inr ⟨part, List.mem_cons_self, h⟩
    · rw [List.intercalate_cons_of_ne_nil hnil, List.append_assoc, List.singleton_append] at h
      rcases List.mem_append.mp h with h | h
      · exact .inr ⟨part, List.mem_cons_self, h⟩
      · rcases List.mem_cons.mp h with h | h
        · exact .inl h
        · obtain h | ⟨p, hp, hc⟩ := ih h
          · exact .inl h
          · exact .inr ⟨p, List.mem_cons_of_mem _ hp, hc⟩

/-- A normalised key is normalised again for the lookup, which changes nothing. -/
theorem cleaned_normaliseKey (raw : String) :
    (strip (normaliseKey raw)).toLower = normaliseKey raw := by
  have hparts : ∀ part ∈ ((stripChars raw.toList).splitOn '/').map fun part =>
      (strip (String.ofList part)).toLower,
      stripChars part.toList = part.toList ∧ ∀ c ∈ part.toList, c.toLower = c := by
    intro part hpart
    obtain ⟨cs, -, rfl⟩ := List.mem_map.mp hpart
    have hchars : ((strip (String.ofList cs)).toLower).toList =
        (stripChars cs).map Char.toLower := by
      rw [String.toLower, String.toList_map, strip, String.toList_ofList, String.toList_ofList]
    rw [hchars]
    constructor
    · have hends := stripChars_eq_self_iff.mp (stripChars_stripChars cs)
      refine stripChars_eq_self_iff.mpr ⟨fun c hc => ?_, fun c hc => ?_⟩
      · rw [List.head?_map] at hc
        obtain ⟨d, hd, rfl⟩ := Option.map_eq_some_iff.mp hc
        exact isSpace_toLower (hends.1 d hd)
      · rw [List.getLast?_map] at hc
        obtain ⟨d, hd, rfl⟩ := Option.map_eq_some_iff.mp hc
        exact isSpace_toLower (hends.2 d hd)
    · intro c hc
      obtain ⟨d, -, rfl⟩ := List.mem_map.mp hc
      exact Char.toLower_toLower_eq_toLower d
  have hslash : "/".toList = ['/'] := rfl
  have hstrip : strip (normaliseKey raw) = normaliseKey raw := by
    apply String.toList_inj.mp
    rw [strip, String.toList_ofList, normaliseKey, String.toList_intercalate, hslash]
    refine stripChars_intercalate fun part hpart => ?_
    obtain ⟨s, hs, rfl⟩ := List.mem_map.mp hpart
    exact (hparts s hs).1
  rw [hstrip]
  apply String.toList_inj.mp
  rw [String.toLower, String.toList_map]
  refine (List.map_congr_left fun c hc => ?_).trans (List.map_id _)
  rw [normaliseKey, String.toList_intercalate, hslash] at hc
  rcases mem_intercalate hc with rfl | ⟨part, hpart, hc⟩
  · decide
  · obtain ⟨s, hs, rfl⟩ := List.mem_map.mp hpart
    exact (hparts s hs).2 c hc

theorem unclaimed_listed (h : Unclaimed name key) :
    key ∈ vaultKeysForEnvName name ∧ ¬ (name = envName key ∨ name ∈ spellings key) := by
  have hslots : ∀ slot ∈ List.range' 1 16,
      providerKey "github" slot ∈ vaultKeysForEnvName ("GH_API_KEY" ++ slotEnding slot) ∧
      ¬ ("GH_API_KEY" ++ slotEnding slot = envName (providerKey "github" slot) ∨
        "GH_API_KEY" ++ slotEnding slot ∈ spellings (providerKey "github" slot)) := by
    intro slot hslot
    -- one slot at a time keeps the evaluations small
    fin_cases hslot <;> decide +kernel
  have htoken : providerKey "github" 1 ∈ vaultKeysForEnvName "GH_API_TOKEN" ∧
      ¬ ("GH_API_TOKEN" = envName (providerKey "github" 1) ∨
        "GH_API_TOKEN" ∈ spellings (providerKey "github" 1)) := by
    decide +kernel
  rcases h with ⟨slot, hslot, rfl, rfl⟩ | ⟨rfl, rfl⟩
  · exact hslots slot hslot
  · exact htoken

/-- **The maps are dual**, exactly but for the spellings that an alias gives and that the way back
does not try. -/
theorem naming_dual_iff (h : UpperName name) (raw : String) :
    (normaliseKey raw ∈ vaultKeysForEnvName name ↔
      name ∈ envNamesForVaultKey (normaliseKey raw)) ↔ ¬ Unclaimed name (normaliseKey raw) := by
  have hclean := cleaned_normaliseKey raw
  generalize normaliseKey raw = key at hclean ⊢
  by_cases hempty : key = ""
  · subst hempty
    have hclaimed : ¬ Unclaimed name "" := by
      have hne (slot : Nat) : "" ≠ providerKey "github" slot := by simp [providerKey]
      rintro (⟨slot, -, -, heq⟩ | ⟨-, heq⟩)
      · exact hne slot heq
      · exact hne 1 heq
    refine iff_of_true (iff_of_false (fun hlisted => ?_) ?_) hclaimed
    · rcases spelled h hlisted hclaimed with heq | hmem
      · exact h.ne heq
      · cases hmem
    · have hnil : envNamesForVaultKey "" = [] := by decide +kernel
      rw [hnil]
      exact List.not_mem_nil
  · rw [mem_envNames_iff hclean hempty]
    constructor
    · intro hdual hunclaimed
      obtain ⟨hlisted, hnot⟩ := unclaimed_listed hunclaimed
      exact hnot (hdual.mp hlisted).1
    · exact fun hclaimed => ⟨fun hlisted => ⟨spelled h hlisted hclaimed, hlisted⟩, fun h => h.2⟩

theorem unclaimed_spelling :
    ¬ ∀ (name raw : String), UpperName name →
      (normaliseKey raw ∈ vaultKeysForEnvName name ↔
        name ∈ envNamesForVaultKey (normaliseKey raw)) := by
  intro h
  have hname : UpperName "GH_API_KEY" :=
    ⟨by simp, List.all_eq_true.mp (by decide +kernel)⟩
  have hdual := h "GH_API_KEY" (providerKey "github" 1) hname
  have hkey : normaliseKey (providerKey "github" 1) = providerKey "github" 1 := by
    decide +kernel
  have hclean := cleaned_normaliseKey (providerKey "github" 1)
  rw [hkey] at hdual hclean
  have hunclaimed : Unclaimed "GH_API_KEY" (providerKey "github" 1) :=
    Or.inl ⟨1, by decide, by simp [slotEnding], rfl⟩
  obtain ⟨hlisted, hnot⟩ := unclaimed_listed hunclaimed
  have hne : providerKey "github" 1 ≠ "" := by simp [providerKey]
  exact hnot ((mem_envNames_iff hclean hne).mp (hdual.mp hlisted)).1

/-- The spelling of a token by the same alias is tried. -/
theorem token_claimed : "providers/github/api_key" ∈ vaultKeysForEnvName "GH_TOKEN" ↔
    "GH_TOKEN" ∈ envNamesForVaultKey "providers/github/api_key" := by
  have hname : UpperName "GH_TOKEN" := ⟨by simp, List.all_eq_true.mp (by decide +kernel)⟩
  have hdual := naming_dual_iff hname "providers/github/api_key"
  have hkey : normaliseKey "providers/github/api_key" = "providers/github/api_key" := by
    decide +kernel
  rw [hkey] at hdual
  refine hdual.mpr ?_
  rintro (⟨slot, hslot, heq, -⟩ | ⟨heq, -⟩)
  · have hne : ∀ slot ∈ List.range' 1 16, "GH_TOKEN" ≠ "GH_API_KEY" ++ slotEnding slot := by
      decide +kernel
    exact hne slot hslot heq
  · revert heq
    decide +kernel

end GenusOs.Vault
