import EmbeddedLang.Decimal.Reading
import EmbeddedLang.Settings.Basic
import EmbeddedLang.Text.Blank
import EmbeddedLang.Text.LetterCase

/-!
Settings from variables, which go before those of a document.
-/

namespace EmbeddedLang.Settings

/-- The value of a variable by its name. -/
abbrev Variables := String → Option String

/-- A truth value in one of its spellings, in any case and with white space around it. -/
def flag? (value : String) : Option Bool :=
  let word := String.ofList (Text.lower (Text.trim value.toList))
  if word ∈ ["1", "true", "yes", "on"] then some true
  else if word ∈ ["0", "false", "no", "off"] then some false
  else none

def flagOf (env : Variables) (name : String) (old : Bool) : Except SettingsError Bool :=
  match env name with
  | none => .ok old
  | some value => match flag? value with
    | some flag => .ok flag
    | none => .error (.notBoolean name value)

def numberOf (env : Variables) (name : String) (old : Option Nat) :
    Except SettingsError (Option Nat) :=
  match env name with
  | none => .ok old
  | some value => match Decimal.unsigned? (Nat.pow 2 64) (Text.trim value.toList) with
    | some n => .ok (some n)
    | none => .error (.notNumber name value)

/-- Settings with the values of the variables that are set; checked once all are in place. -/
def withOverrides (s : Settings) (env : Variables) : Except SettingsError Settings := do
  let dialect := (env "REINHARDT_LANG_DIALECT").getD s.dialect
  let autoescape ← flagOf env "REINHARDT_LANG_AUTOESCAPE" s.template.autoescape
  let enabled ← flagOf env "REINHARDT_LANG_CACHE_ENABLED" s.cache.enabled
  let capacity ← numberOf env "REINHARDT_LANG_CACHE_CAPACITY" s.cache.capacity
  let ttlSeconds ← numberOf env "REINHARDT_LANG_CACHE_TTL_SECONDS" s.cache.ttlSeconds
  let s := { s with
    dialect
    template.autoescape := autoescape
    cache := ⟨enabled, capacity, ttlSeconds⟩ }
  s.validate
  return s

end EmbeddedLang.Settings
