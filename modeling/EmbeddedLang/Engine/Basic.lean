import EmbeddedLang.Cache.Compilation

/-!
Engines: a compiler under one configuration, with a cache for what it has compiled.
-/

namespace EmbeddedLang

/-- A language with artifacts `α`, compiled under configurations `κ`. -/
structure Language (κ α : Type) where
  name : String
  /-- Tells configurations apart that may compile a source differently. -/
  variant : κ → String
  compile : κ → String → Except CompileError α

structure Engine (κ α : Type) where
  language : Language κ α
  config : κ
  cache : Option (Cache α)

/-- An artifact as a request is given it; one that is shared has the number of its compilation. -/
structure Delivery (α : Type) where
  artifact : α
  maker : Option Nat

def Shared.delivery {α : Type} (s : Shared α) : Delivery α :=
  ⟨s.artifact, some s.maker⟩

namespace Engine

variable {κ α : Type}

/-- An engine with a cache that has no limits. -/
def make (language : Language κ α) (config : κ) : Engine κ α :=
  ⟨language, config, some (Cache.empty none none)⟩

def withoutCache (e : Engine κ α) : Engine κ α :=
  { e with cache := none }

def fingerprint (e : Engine κ α) (source : String) : Fingerprint :=
  .of e.language.name (e.language.variant e.config) source

/-- Compiles without the cache. -/
def compile (e : Engine κ α) (source : String) : Except CompileError α :=
  e.language.compile e.config source

/-- Compiles a source unless its artifact is stored. No answer if someone else compiles it at the
time. -/
def compileCached (e : Engine κ α) (now : Nat) (source : String) :
    Option (Except CompileError (Delivery α)) × Engine κ α :=
  match e.cache with
  | none => (some ((e.compile source).map (⟨·, none⟩)), e)
  | some cache =>
    let (answer, cache) := cache.get? now (e.fingerprint source) fun _ => e.compile source
    (answer.map (·.map Shared.delivery), { e with cache := some cache })

def contains? (e : Engine κ α) (now : Nat) (source : String) : Option Bool :=
  e.cache.map (·.contains now (e.fingerprint source))

def invalidate (e : Engine κ α) (source : String) : Option Bool × Engine κ α :=
  match e.cache with
  | none => (none, e)
  | some cache =>
    let (found, cache) := cache.invalidate (e.fingerprint source)
    (some found, { e with cache := some cache })

def statistics? (e : Engine κ α) : Option Statistics :=
  e.cache.map (·.statistics)

end Engine

end EmbeddedLang
