import EmbeddedLang.Cache.Compilation

/-!
Requests to one cache, of which many are under way at a time.

A request looks its fingerprint up in one step and is answered after some more. Between two of its
steps other requests may take theirs, and stored artifacts may be dropped.
-/

namespace EmbeddedLang

/-- How far a request has come. The number is that of the compilation it leads or waits for. -/
inductive Progress (α : Type) where
  | hit (content : Shared α)
  | compiling (number : Nat)
  /-- The outcome is in the slot, but nobody who waits has been told. -/
  | settled (number : Nat) (outcome : Except CompileError α)
  | led (number : Nat) (outcome : Except CompileError α)
  /-- The compilation panicked and the slot is given up, but nobody who waits has been told. -/
  | unwinding (number : Nat)
  | panicked (number : Nat)
  | waiting (number : Nat)
  | joined (number : Nat) (answer : Except CompileError (Shared α))
  | cancelled (number : Nat)

structure Request (α : Type) where
  fingerprint : Fingerprint
  progress : Progress α

/-- What a request does after its look-up. -/
inductive Move (α : Type) where
  /-- The compilation has come to an outcome, which is put in the slot. -/
  | settle (now : Nat) (outcome : Except CompileError α)
  /-- Whoever waits is told the outcome, which is the answer to this request as well. -/
  | publish
  /-- The compilation has panicked, and the slot is given up. -/
  | unwind
  /-- Whoever waits is told that there is no outcome. -/
  | close
  | receive
  | cancel

/-- A request is named by its place among all. Times are what the clock reads at the step. -/
inductive Step (α : Type) where
  | request (f : Fingerprint) (now : Nat)
  | move (i : Nat) (m : Move α)
  | invalidate (f : Fingerprint)
  | clear
  | purge (now : Nat)

variable {α : Type}

def Progress.ofLookup : Lookup α → Progress α
  | .hit content => .hit content
  | .wait number => .waiting number
  | .lead number => .compiling number

def Progress.answer? : Progress α → Option (Except CompileError (Shared α))
  | .hit content => some (.ok content)
  | .led number outcome => some (outcome.map (⟨number, ·⟩))
  | .joined _ answer => some answer
  | _ => none

def Cache.close (c : Cache α) (number : Nat) : Cache α :=
  { c with compilations := c.compilations.set number .abandoned }

theorem Cache.abandon_eq (c : Cache α) (f : Fingerprint) (number : Nat) :
    c.abandon f number = (c.dropSlot f).close number :=
  rfl

def Cache.move? (c : Cache α) (f : Fingerprint) :
    Progress α → Move α → Option (Cache α × Progress α)
  | .compiling n, .settle now outcome => some (c.settle now f n outcome, .settled n outcome)
  | .settled n outcome, .publish => some (c.publish n outcome, .led n outcome)
  | .compiling n, .unwind => some (c.dropSlot f, .unwinding n)
  | .unwinding n, .close => some (c.close n, .panicked n)
  | .waiting n, .receive => (c.await? f n).map fun answer => (c, .joined n answer)
  | .waiting n, .cancel => some (c, .cancelled n)
  | _, _ => none

/-- A cache with all requests that were made to it, in their order. -/
structure Traffic (α : Type) where
  cache : Cache α
  requests : List (Request α)

namespace Traffic

def start (maxEntries ttl : Option Nat) : Traffic α :=
  ⟨.empty maxEntries ttl, []⟩

/-- Nothing if the request named is not at the point where it takes this step. -/
def step? (t : Traffic α) : Step α → Option (Traffic α)
  | .request f now =>
    let (found, cache) := t.cache.lookup now f
    some ⟨cache, t.requests ++ [⟨f, .ofLookup found⟩]⟩
  | .move i m => do
    let r ← t.requests[i]?
    let (cache, progress) ← t.cache.move? r.fingerprint r.progress m
    return ⟨cache, t.requests.set i { r with progress }⟩
  | .invalidate f => some { t with cache := (t.cache.invalidate f).2 }
  | .clear => some { t with cache := t.cache.clear }
  | .purge now => some { t with cache := (t.cache.purge now).2 }

def run? (t : Traffic α) (steps : List (Step α)) : Option (Traffic α) :=
  steps.foldlM step? t

end Traffic

end EmbeddedLang
