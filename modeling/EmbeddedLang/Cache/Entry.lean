/-!
Stored artifacts, and counts of what happens to them.

Times are in nanoseconds of a clock that ends; an expiry past its end is none.
-/

namespace EmbeddedLang

def second : Nat := Nat.pow 10 9

/-- The end of the clock. -/
def clockEnd : Nat := Nat.pow 2 63 * second

/-- When something made at `now` expires. -/
def expiryOf (now : Nat) (ttl : Option Nat) : Option Nat :=
  (ttl.map (now + ·)).filter (· < clockEnd)

/-- An artifact with the number of the compilation that made it. -/
structure Shared (α : Type) where
  maker : Nat
  artifact : α

structure Entry (α : Type) where
  content : Shared α
  created : Nat
  expiry : Option Nat
  lastAccess : Nat

/-- What is told of an entry: its age, how long it lay idle, and how long it has left. -/
structure EntryInfo where
  age : Nat
  idle : Nat
  remaining : Option Nat
deriving DecidableEq

namespace Entry

variable {α : Type}

def make (now : Nat) (ttl : Option Nat) (content : Shared α) : Entry α :=
  ⟨content, now, expiryOf now ttl, now⟩

def isExpired (e : Entry α) (now : Nat) : Bool :=
  match e.expiry with
  | some time => time ≤ now
  | none => false

def touch (e : Entry α) (now : Nat) : Entry α :=
  { e with lastAccess := now }

def info (e : Entry α) (now : Nat) : EntryInfo :=
  ⟨now - e.created, now - e.lastAccess, e.expiry.map (· - now)⟩

end Entry

structure Statistics where
  /-- Requests served from a stored artifact. -/
  hits : Nat
  /-- Requests that began a compilation. -/
  misses : Nat
  /-- Requests that waited for a compilation in progress. -/
  coalesced : Nat
  /-- Compilations that ended in an error. -/
  failures : Nat
  /-- Artifacts dropped for want of room. -/
  evictions : Nat
  /-- Artifacts stored at present. -/
  entries : Nat
deriving DecidableEq

namespace Statistics

def zero : Statistics :=
  ⟨0, 0, 0, 0, 0, 0⟩

def total (s : Statistics) : Nat :=
  s.hits + s.misses + s.coalesced

/-- The share of requests that did not compile. -/
def hitRate (s : Statistics) : Float :=
  if s.total = 0 then 0 else Float.ofNat (s.hits + s.coalesced) / Float.ofNat s.total

end Statistics

end EmbeddedLang
