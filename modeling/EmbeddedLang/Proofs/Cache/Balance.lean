import EmbeddedLang.Proofs.Cache.Slots
import EmbeddedLang.Proofs.Cache.SingleFlight

/-!
The counts of a cache balance.

Look-ups are hits, misses or coalesced. What was missed ends as an artifact, a failure or a panic,
or is still being compiled. An artifact once stored is either there or was evicted, removed or found
expired by a look-up. One step keeps each of these, and so does every run.
-/

namespace EmbeddedLang

variable {α : Type}

namespace Step

def isRequest : Step α → Bool
  | .request _ _ => true
  | _ => false

def storesArtifact : Step α → Bool
  | .move _ (.settle _ (.ok _)) => true
  | _ => false

def isFailure : Step α → Bool
  | .move _ (.settle _ (.error _)) => true
  | _ => false

def isPanic : Step α → Bool
  | .move _ .unwind => true
  | _ => false

end Step

def Progress.isCompiling : Progress α → Bool
  | .compiling _ => true
  | _ => false

namespace Traffic

open Cache

variable {t t₀ t' u : Traffic α} {steps : List (Step α)} {s : Step α}

def inFlight (t : Traffic α) : Nat :=
  t.requests.countP fun r => r.progress.isCompiling

/-- The artifacts that an operation on the cache removes in a step. -/
def removed (t : Traffic α) : Step α → Nat
  | .invalidate f => (t.cache.invalidate f).1.toNat
  | .clear => t.cache.len
  | .purge now => (t.cache.purge now).1
  | .request _ _ | .move _ _ => 0

/-- The expired artifact that a look-up takes out of its slot, if there is one. -/
def displaced (t : Traffic α) : Step α → Nat
  | .request f now => ((t.cache.entryOf? f).any fun e => e.isExpired now).toNat
  | .move _ _ | .invalidate _ | .clear | .purge _ => 0

/-- What is counted at each step, in all steps of a run. -/
def total (count : Traffic α → Step α → Nat) : Traffic α → List (Step α) → Nat
  | _, [] => 0
  | t, s :: rest =>
    count t s +
      match t.step? s with
      | some u => total count u rest
      | none => 0

theorem total_concat (count : Traffic α → Step α → Nat) (h : t.run? steps = some u) (s : Step α) :
    total count t (steps ++ [s]) = total count t steps + count u s := by
  induction steps generalizing t with
  | nil =>
    cases h
    simp only [List.nil_append, total]
    cases u.step? s <;> simp
  | cons first rest ih =>
    obtain ⟨v, hv, hrest⟩ := Option.bind_eq_some_iff.mp h
    simp only [List.cons_append, total, hv]
    rw [ih hrest, Nat.add_assoc]

/-! ### One step -/

theorem countP_update (p : Request α → Bool) {rs : List (Request α)} {i : Nat} {x : Request α}
    (h : rs[i]? = some x) (y : Request α) :
    (rs.set i y).countP p + (p x).toNat = rs.countP p + (p y).toNat := by
  induction rs generalizing i with
  | nil => cases h
  | cons r rest ih =>
    cases i with
    | zero =>
      obtain rfl : r = x := Option.some.inj h
      simp only [List.set_cons_zero, List.countP_cons]
      cases p r <;> cases p y <;> simp
    | succ i =>
      have hrest := ih (i := i) h
      simp only [List.set_cons_succ, List.countP_cons]
      omega

/-- What a step adds to each side of the balance. -/
structure Balances (t : Traffic α) (s : Step α) (t' : Traffic α) : Prop where
  lookups : t'.cache.counts.total = t.cache.counts.total + s.isRequest.toNat
  failures : t'.cache.counts.failures = t.cache.counts.failures + s.isFailure.toNat
  compilations : t'.cache.counts.misses + t.inFlight =
    t.cache.counts.misses + t'.inFlight + s.storesArtifact.toNat + s.isFailure.toNat +
      s.isPanic.toNat
  artifacts : t'.cache.kept + t.removed s + t.displaced s = t.cache.kept + s.storesArtifact.toNat

theorem inFlight_push (cache : Cache α) (x : Request α) :
    inFlight ⟨cache, t.requests ++ [x]⟩ = t.inFlight + x.progress.isCompiling.toNat := by
  unfold inFlight
  rw [List.countP_append, List.countP_singleton]
  cases x.progress.isCompiling <;> rfl

theorem kept_touch (h : t.cache.Sorted) {f : Fingerprint} {e : Entry α}
    (he : t.cache.slot? f = some (.ready e)) (now : Nat) :
    (t.cache.setSlot f (.ready (e.touch now))).kept = t.cache.kept := by
  have hl := len_setSlot h f (.ready (e.touch now))
  rw [stores_of_ready he] at hl
  exact congrArg (· + t.cache.counts.evictions) (Nat.add_right_cancel hl)

theorem kept_lead (h : t.cache.Sorted) (f : Fingerprint) :
    (t.cache.lead f).2.kept + (t.cache.stores f).toNat = t.cache.kept := by
  have hl := len_setSlot h f (.pending t.cache.compilations.length)
  change (t.cache.setSlot f _).len + t.cache.counts.evictions + _ =
    t.cache.len + t.cache.counts.evictions
  simp only [Slot.isReady, Bool.toNat_false] at hl
  omega

/-- A request that leads takes with it what it finds expired. -/
theorem balances_lead (h : t.cache.Sorted) (f : Fingerprint) (now : Nat)
    (hd : t.displaced (.request f now) = (t.cache.stores f).toNat) :
    Balances t (.request f now)
      ⟨(t.cache.lead f).2, t.requests ++ [⟨f, .compiling t.cache.compilations.length⟩]⟩ where
  lookups := by
    simp only [lead, setSlot, Statistics.total, Step.isRequest, Bool.toNat_true]
    omega
  failures := rfl
  compilations := by
    rw [inFlight_push]
    simp only [lead, setSlot, Progress.isCompiling, Step.storesArtifact, Step.isFailure,
      Step.isPanic, Bool.toNat_true, Bool.toNat_false]
    omega
  artifacts := by
    rw [hd]
    exact kept_lead h f

theorem found_of_step? {f : Fingerprint} {now : Nat} (hs : t.step? (.request f now) = some t') :
    ∃ found cache, Found t.cache now f found cache ∧
      t' = ⟨cache, t.requests ++ [⟨f, .ofLookup found⟩]⟩ :=
  ⟨_, _, lookup_found t.cache now f, (Option.some.inj hs).symm⟩

theorem balances_request (h : t.cache.Sorted) {f : Fingerprint} {now : Nat}
    (hs : t.step? (.request f now) = some t') : Balances t (.request f now) t' := by
  obtain ⟨found, cache, hl, rfl⟩ := found_of_step? hs
  cases hl with
  | @live e stored live =>
    have hd : t.displaced (.request f now) = 0 := by
      simp [displaced, entryOf?, stored, live]
    refine ⟨?_, rfl, ?_, ?_⟩
    · simp only [setSlot, Statistics.total, Step.isRequest, Bool.toNat_true]
      omega
    · rw [inFlight_push]
      rfl
    · rw [hd]
      exact kept_touch h stored now
  | inFlight pending =>
    have hd : t.displaced (.request f now) = 0 := by
      simp [displaced, entryOf?, pending]
    refine ⟨?_, rfl, ?_, ?_⟩
    · simp only [Statistics.total, Step.isRequest, Bool.toNat_true]
      omega
    · rw [inFlight_push]
      rfl
    · rw [hd]
      rfl
  | expired stored expired =>
    apply balances_lead h f now
    simp [displaced, entryOf?, stored, expired, stores_of_ready stored]
  | absent free =>
    apply balances_lead h f now
    simp [displaced, entryOf?, free, stores_of_none free]

/-- A move that ends a compilation takes it from those in flight, and no move begins one. -/
theorem compilations_update {cache : Cache α} {i : Nat} {r : Request α} {p : Progress α}
    (hr : t.requests[i]? = some r) (hm : cache.counts.misses = t.cache.counts.misses) (s : Step α)
    (hp : r.progress.isCompiling.toNat = p.isCompiling.toNat + s.storesArtifact.toNat +
      s.isFailure.toNat + s.isPanic.toNat) :
    cache.counts.misses + t.inFlight =
      t.cache.counts.misses + inFlight ⟨cache, t.requests.set i ⟨r.fingerprint, p⟩⟩ +
        s.storesArtifact.toNat + s.isFailure.toNat + s.isPanic.toNat := by
  have hcount := countP_update (fun r => r.progress.isCompiling) hr ⟨r.fingerprint, p⟩
  unfold inFlight
  dsimp only at hcount ⊢
  omega

theorem kept_settle_ok (h : t.cache.Sorted) {f : Fingerprint} {n : Nat}
    (hf : t.cache.slot? f = some (.pending n)) (now : Nat) (a : α) :
    (t.cache.settle now f n (.ok a)).kept = t.cache.kept + 1 := by
  have hl := len_setSlot h f (.ready (.make now t.cache.ttl ⟨n, a⟩))
  rw [stores_of_pending hf] at hl
  change (t.cache.setSlot f _).fitCapacity.kept = _
  rw [kept_fitCapacity (h.setSlot f _)]
  change (t.cache.setSlot f _).len + t.cache.counts.evictions =
    t.cache.len + t.cache.counts.evictions + 1
  simp only [Slot.isReady, Bool.toNat_true, Bool.toNat_false] at hl
  omega

theorem kept_dropSlot (h : t.cache.Sorted) {f : Fingerprint} {n : Nat}
    (hf : t.cache.slot? f = some (.pending n)) : (t.cache.dropSlot f).kept = t.cache.kept := by
  have hl := len_dropSlot h f
  rw [stores_of_pending hf] at hl
  exact congrArg (· + t.cache.counts.evictions) hl

theorem counts_settle_ok (c : Cache α) (now : Nat) (f : Fingerprint) (n : Nat) (a : α) :
    (c.settle now f n (.ok a)).counts =
      { c.counts with evictions := (c.settle now f n (.ok a)).counts.evictions } :=
  (onlyEvicts_fitCapacity (c.setSlot f (.ready (.make now c.ttl ⟨n, a⟩)))).counts

theorem balances_move (h : t.Sound) {i : Nat} {m : Move α} (hs : t.step? (.move i m) = some t') :
    Balances t (.move i m) t' := by
  obtain ⟨⟨f, q⟩, cache, p, hr, hm, rfl⟩ := move_of_step? hs
  cases hm with
  | settle n now outcome =>
    have hf := h.slot_of_compiling hr
    cases outcome with
    | ok a =>
      have hc := counts_settle_ok t.cache now f n a
      have hmisses : (t.cache.settle now f n (.ok a)).counts.misses = t.cache.counts.misses := by
        rw [hc]
      refine ⟨?_, ?_, compilations_update hr hmisses _ rfl, kept_settle_ok h.sorted hf now a⟩
      · rw [hc]
        rfl
      · rw [hc]
        rfl
    | error e =>
      exact ⟨rfl, rfl, compilations_update hr rfl _ rfl, kept_dropSlot h.sorted hf⟩
  | unwind n =>
    have hf := h.slot_of_compiling hr
    exact ⟨rfl, rfl, compilations_update hr rfl _ rfl, kept_dropSlot h.sorted hf⟩
  | publish | close | receive | cancel =>
    exact ⟨rfl, rfl, compilations_update hr rfl _ rfl, rfl⟩

theorem balances_of_step? (h : t.Sound) (hs : t.step? s = some t') : Balances t s t' := by
  cases s with
  | request f now => exact balances_request h.sorted hs
  | move i m => exact balances_move h hs
  | invalidate f =>
    cases hs
    have hl := len_invalidate h.sorted f
    have hc := counts_invalidate t.cache f
    refine ⟨by rw [hc]; rfl, by rw [hc]; rfl, by rw [hc]; rfl, ?_⟩
    simp only [kept, hc, removed, displaced, Step.storesArtifact, Bool.toNat_false]
    omega
  | clear =>
    cases hs
    have hl := len_clear t.cache
    refine ⟨rfl, rfl, rfl, ?_⟩
    change t.cache.clear.len + t.cache.counts.evictions + t.cache.len =
      t.cache.len + t.cache.counts.evictions
    omega
  | purge now =>
    cases hs
    have hl := len_purge t.cache now
    refine ⟨rfl, rfl, rfl, ?_⟩
    change (t.cache.purge now).2.len + t.cache.counts.evictions + (t.cache.purge now).1 =
      t.cache.len + t.cache.counts.evictions
    omega

/-! ### All runs -/

theorem countP_concat (p : Step α → Bool) (s : Step α) :
    (steps ++ [s]).countP p = steps.countP p + (p s).toNat := by
  rw [List.countP_append, List.countP_singleton]
  cases p s <;> rfl

/-- The sums of all steps of a run. -/
structure Balanced (t₀ : Traffic α) (steps : List (Step α)) (t : Traffic α) : Prop where
  lookups : t.cache.counts.total = steps.countP Step.isRequest
  failures : t.cache.counts.failures = steps.countP Step.isFailure
  compilations : t.cache.counts.misses = steps.countP Step.storesArtifact +
    steps.countP Step.isFailure + steps.countP Step.isPanic + t.inFlight
  artifacts : steps.countP Step.storesArtifact =
    t.cache.kept + total removed t₀ steps + total displaced t₀ steps

theorem Balanced.step (h : Balanced t₀ steps t) (hrun : t₀.run? steps = some t)
    (hs : Balances t s t') : Balanced t₀ (steps ++ [s]) t' := by
  obtain ⟨lookups, failures, compilations, artifacts⟩ := h
  have hlookups := hs.lookups
  have hfailures := hs.failures
  have hcompilations := hs.compilations
  have hartifacts := hs.artifacts
  constructor
  all_goals
    simp only [countP_concat, total_concat _ hrun]
    omega

theorem balanced_of_run? {maxEntries ttl : Option Nat}
    (h : (start maxEntries ttl).run? steps = some t) : Balanced (start maxEntries ttl) steps t := by
  induction steps using List.reverseRecOn generalizing t with
  | nil =>
    cases h
    exact ⟨rfl, rfl, rfl, rfl⟩
  | append_singleton steps s ih =>
    obtain ⟨u, hu, hs⟩ := run?_concat.mp h
    exact (ih hu).step hu (balances_of_step? (sound_of_run? hu) hs)

/-- In every state that is reached, whatever the order of steps: each look-up is counted once, each
miss ends in one way or is in flight, and each artifact stored is there or was taken away once. -/
theorem statistics_balance {maxEntries ttl : Option Nat}
    (h : (start maxEntries ttl).run? steps = some t) :
    t.cache.statistics.total = steps.countP Step.isRequest ∧
      t.cache.statistics.failures = steps.countP Step.isFailure ∧
      t.cache.statistics.misses = steps.countP Step.storesArtifact + t.cache.statistics.failures +
        steps.countP Step.isPanic + t.inFlight ∧
      steps.countP Step.storesArtifact = t.cache.statistics.entries +
        t.cache.statistics.evictions + total removed (start maxEntries ttl) steps +
        total displaced (start maxEntries ttl) steps := by
  obtain ⟨lookups, failures, compilations, artifacts⟩ := balanced_of_run? h
  refine ⟨lookups, failures, ?_, artifacts⟩
  change t.cache.counts.misses = _ + t.cache.counts.failures + _ + _
  rw [failures, compilations]

/-- One artifact is evicted, one found expired and one invalidated. One compilation fails, one
panics and one is still in flight. -/
def audit : List (Step Nat) :=
  [.request ⟨"a"⟩ 0, .request ⟨"a"⟩ 0, .move 0 (.settle 1 (.ok 7)), .request ⟨"b"⟩ 2,
    .move 2 (.settle 3 (.ok 8)), .request ⟨"b"⟩ 4, .request ⟨"c"⟩ 5, .move 4 .unwind,
    .request ⟨"c"⟩ 6, .move 5 (.settle 7 (.error (.abandoned "c"))), .request ⟨"b"⟩ 20,
    .request ⟨"d"⟩ 21, .move 7 (.settle 22 (.ok 9)), .invalidate ⟨"d"⟩]

def audited : Traffic Nat where
  cache := ⟨[("b", .pending 4)], [.running, .running, .running, .running, .running, .running],
    some 1, some 5, ⟨1, 6, 1, 1, 1, 0⟩⟩
  requests := [⟨⟨"a"⟩, .settled 0 (.ok 7)⟩, ⟨⟨"a"⟩, .waiting 0⟩, ⟨⟨"b"⟩, .settled 1 (.ok 8)⟩,
    ⟨⟨"b"⟩, .hit ⟨1, 8⟩⟩, ⟨⟨"c"⟩, .unwinding 2⟩,
    ⟨⟨"c"⟩, .settled 3 (.error (.abandoned "c"))⟩, ⟨⟨"b"⟩, .compiling 4⟩,
    ⟨⟨"d"⟩, .settled 5 (.ok 9)⟩]

theorem statistics_balance_audited :
    (start (some 1) (some 5)).run? audit = some audited ∧
      total removed (start (some 1) (some 5)) audit = 1 ∧
      total displaced (start (some 1) (some 5)) audit = 1 ∧
      audited.cache.statistics.total = audit.countP Step.isRequest ∧
      audited.cache.statistics.failures = audit.countP Step.isFailure ∧
      audited.cache.statistics.misses = audit.countP Step.storesArtifact +
        audited.cache.statistics.failures + audit.countP Step.isPanic + audited.inFlight ∧
      audit.countP Step.storesArtifact = audited.cache.statistics.entries +
        audited.cache.statistics.evictions + total removed (start (some 1) (some 5)) audit +
        total displaced (start (some 1) (some 5)) audit := by
  have hrun : (start (some 1) (some 5)).run? audit = some audited := by rfl
  exact ⟨hrun, by decide, by decide, statistics_balance hrun⟩

end Traffic

end EmbeddedLang
