import EmbeddedLang.Cache.Compilation
import EmbeddedLang.Query.Dialect
import EmbeddedLang.Template.Lowering

/-!
Settings of the compilers, and what makes them valid.
-/

namespace EmbeddedLang

structure CacheSettings where
  enabled : Bool := true
  /-- How many artifacts are kept, without limit if absent. -/
  capacity : Option Nat := none
  /-- How long an artifact is kept, for ever if absent. -/
  ttlSeconds : Option Nat := none
deriving DecidableEq

/-- An empty cache as the settings ask for, none if they turn it off. -/
def CacheSettings.cache? (s : CacheSettings) (α : Type) : Option (Cache α) :=
  if s.enabled then some (Cache.empty s.capacity (s.ttlSeconds.map (· * second))) else none

structure Settings where
  /-- Name of a built-in dialect of the query language. -/
  dialect : String := "generic"
  template : Template.Options := {}
  cache : CacheSettings := {}

inductive SettingsError where
  /-- The settings are in a file that cannot be read. -/
  | unreadable
  | malformed
  | unknownDialect (name : String)
  | noCapacity
  | noLifetime
  | notBoolean (name value : String)
  | notNumber (name value : String)
deriving DecidableEq

namespace SettingsError

/-- Settings that can be read may still say what cannot be done. -/
def isInvalid : SettingsError → Bool
  | unreadable => false
  | malformed => false
  | _ => true

def text : SettingsError → String
  | unreadable => "Failed to read"
  | malformed => "TOML parse error"
  | unknownDialect name => "unknown query dialect '" ++ name ++ "'"
  | noCapacity => "cache capacity must be at least 1"
  | noLifetime => "cache ttl_seconds must be at least 1"
  | notBoolean name value => name ++ " must be a boolean, got '" ++ value ++ "'"
  | notNumber name value => name ++ " must be a number, got '" ++ value ++ "'"

def message (e : SettingsError) : String :=
  if e.isInvalid then "Validation error: " ++ e.text else e.text

end SettingsError

/-- The dialect that a name stands for. -/
def dialectNamed (name : String) : Except SettingsError Query.Dialect :=
  match Query.Dialect.byName? name with
  | some d => .ok d
  | none => .error (.unknownDialect name)

def Settings.validate (s : Settings) : Except SettingsError Unit := do
  let _ ← dialectNamed s.dialect
  if s.cache.capacity = some 0 then throw .noCapacity
  if s.cache.ttlSeconds = some 0 then throw .noLifetime

end EmbeddedLang
