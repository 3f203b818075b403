import EmbeddedLang.Cache.Entry
import EmbeddedLang.Cache.Fingerprint
import EmbeddedLang.CompileError
import EmbeddedLang.Dictionary

/-!
A cache that compiles nothing twice at the same time.

A request that finds its artifact missing leads: it holds the slot while it compiles. Requests for
the same fingerprint wait for its outcome meanwhile. Every operation here is one atomic step; those
of several requests may be mixed in any order.
-/

namespace EmbeddedLang

inductive Slot (α : Type) where
  | ready (entry : Entry α)
  | pending (leader : Nat)

/-- What has become of a compilation. -/
inductive Compilation (α : Type) where
  | running
  | finished (outcome : Except CompileError α)
  | abandoned

/-- The number of a compilation is its place in the list of all. -/
structure Cache (α : Type) where
  slots : Dictionary (Slot α)
  compilations : List (Compilation α)
  maxEntries : Option Nat
  /-- In nanoseconds. -/
  ttl : Option Nat
  counts : Statistics

inductive Lookup (α : Type) where
  | hit (content : Shared α)
  | wait (leader : Nat)
  | lead (number : Nat)

def Slot.isReady {α : Type} : Slot α → Bool
  | .ready _ => true
  | .pending _ => false

namespace Cache

variable {α : Type}

def empty (maxEntries ttl : Option Nat) : Cache α :=
  ⟨[], [], maxEntries, ttl, .zero⟩

def slot? (c : Cache α) (f : Fingerprint) : Option (Slot α) :=
  Dictionary.get? f.text c.slots

def setSlot (c : Cache α) (f : Fingerprint) (s : Slot α) : Cache α :=
  { c with slots := Dictionary.put f.text s c.slots }

def dropSlot (c : Cache α) (f : Fingerprint) : Cache α :=
  { c with slots := Dictionary.erase f.text c.slots }

/-- The entry stored for a fingerprint, expired or not. -/
def entryOf? (c : Cache α) (f : Fingerprint) : Option (Entry α) :=
  match c.slot? f with
  | some (.ready e) => some e
  | _ => none

/-- Begins a compilation. -/
def lead (c : Cache α) (f : Fingerprint) : Lookup α × Cache α :=
  let number := c.compilations.length
  let c := c.setSlot f (.pending number)
  (.lead number,
    { c with
      compilations := c.compilations ++ [.running]
      counts.misses := c.counts.misses + 1 })

def lookup (c : Cache α) (now : Nat) (f : Fingerprint) : Lookup α × Cache α :=
  match c.slot? f with
  | some (.ready e) =>
    if e.isExpired now then c.lead f
    else
      let c := c.setSlot f (.ready (e.touch now))
      (.hit e.content, { c with counts.hits := c.counts.hits + 1 })
  | some (.pending leader) =>
    (.wait leader, { c with counts.coalesced := c.counts.coalesced + 1 })
  | none => c.lead f

/-- The stored entries by their fingerprints. -/
def entries (c : Cache α) : List (String × Entry α) :=
  c.slots.filterMap fun (name, slot) =>
    match slot with
    | .ready e => some (name, e)
    | .pending _ => none

def len (c : Cache α) : Nat :=
  c.entries.length

def isEmpty (c : Cache α) : Bool :=
  c.len == 0

/-- The entry that was not accessed for the longest time. -/
def oldest? : List (String × Entry α) → Option (String × Entry α)
  | [] => none
  | x :: rest =>
    match oldest? rest with
    | some y => if y.2.lastAccess < x.2.lastAccess then some y else some x
    | none => some x

def evictOldest (c : Cache α) : Cache α :=
  match oldest? c.entries with
  | some (name, _) =>
    { c with
      slots := Dictionary.erase name c.slots
      counts.evictions := c.counts.evictions + 1 }
  | none => c

def evict : Nat → Cache α → Cache α
  | 0, c => c
  | n + 1, c => evict n c.evictOldest

/-- Drops the entries used least recently, until no more are left than allowed. -/
def fitCapacity (c : Cache α) : Cache α :=
  match c.maxEntries with
  | some most => evict (c.len - most) c
  | none => c

/-- Puts the outcome of a compilation in its slot. Errors are not stored. -/
def settle (c : Cache α) (now : Nat) (f : Fingerprint) (number : Nat)
    (outcome : Except CompileError α) : Cache α :=
  match outcome with
  | .ok artifact => (c.setSlot f (.ready (.make now c.ttl ⟨number, artifact⟩))).fitCapacity
  | .error _ =>
    let c := c.dropSlot f
    { c with counts.failures := c.counts.failures + 1 }

/-- Tells the outcome of a compilation to those who wait for it. -/
def publish (c : Cache α) (number : Nat) (outcome : Except CompileError α) : Cache α :=
  { c with compilations := c.compilations.set number (.finished outcome) }

def complete (c : Cache α) (now : Nat) (f : Fingerprint) (number : Nat)
    (outcome : Except CompileError α) : Cache α :=
  (c.settle now f number outcome).publish number outcome

/-- Gives up a compilation that did not come to an end. -/
def abandon (c : Cache α) (f : Fingerprint) (number : Nat) : Cache α :=
  let c := c.dropSlot f
  { c with compilations := c.compilations.set number .abandoned }

/-- What a request that waits is answered, once the compilation it waits for is over. -/
def await? (c : Cache α) (f : Fingerprint) (leader : Nat) :
    Option (Except CompileError (Shared α)) :=
  match c.compilations[leader]? with
  | some (.finished outcome) => some (outcome.map (⟨leader, ·⟩))
  | some .abandoned => some (.error (.abandoned f.text))
  | _ => none

/-- A whole request that nothing comes between; no answer if it has to wait. -/
def get? (c : Cache α) (now : Nat) (f : Fingerprint) (compile : Unit → Except CompileError α) :
    Option (Except CompileError (Shared α)) × Cache α :=
  match c.lookup now f with
  | (.hit content, c) => (some (.ok content), c)
  | (.wait leader, c) => (c.await? f leader, c)
  | (.lead number, c) =>
    let outcome := compile ()
    (some (outcome.map (⟨number, ·⟩)), c.complete now f number outcome)

/-- Drops a stored artifact; a compilation in progress is left alone. -/
def invalidate (c : Cache α) (f : Fingerprint) : Bool × Cache α :=
  match c.entryOf? f with
  | some _ => (true, c.dropSlot f)
  | none => (false, c)

def clear (c : Cache α) : Cache α :=
  { c with slots := c.slots.filter fun (_, slot) => !slot.isReady }

def staysAt (now : Nat) : Slot α → Bool
  | .ready e => !e.isExpired now
  | .pending _ => true

/-- Drops what has expired, and counts it. -/
def purge (c : Cache α) (now : Nat) : Nat × Cache α :=
  let kept := c.slots.filter fun (_, slot) => staysAt now slot
  (c.slots.length - kept.length, { c with slots := kept })

def contains (c : Cache α) (now : Nat) (f : Fingerprint) : Bool :=
  match c.entryOf? f with
  | some e => !e.isExpired now
  | none => false

def inspect (c : Cache α) (now : Nat) (f : Fingerprint) : Option EntryInfo :=
  (c.entryOf? f).map (·.info now)

def statistics (c : Cache α) : Statistics :=
  { c.counts with entries := c.len }

def describeOption {β : Type} (f : β → String) : Option β → String
  | some b => "Some(" ++ f b ++ ")"
  | none => "None"

/-- A whole number of seconds, zero of the smallest unit. -/
def describeTtl (ttl : Nat) : String :=
  if ttl = 0 then "0ns" else toString (ttl / second) ++ "s"

def describe (c : Cache α) : String :=
  "CompilationCache \x7b slots: " ++ toString c.slots.length
    ++ ", max_entries: " ++ describeOption toString c.maxEntries
    ++ ", ttl: " ++ describeOption describeTtl c.ttl ++ " \x7d"

end Cache

end EmbeddedLang
