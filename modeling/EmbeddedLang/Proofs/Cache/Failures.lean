import EmbeddedLang.Proofs.Cache.SingleFlight

/-!
A compilation that comes to nothing leaves nothing behind.

A request that leads puts its number over whatever its slot held, and an error and a panic free that
slot in steps of their own. None of these steps reaches another slot. Once they are taken the cache
is as before, but for the counts and for an artifact that had expired anyway.
-/

namespace EmbeddedLang

variable {α : Type}

/-- An end of a compilation without an artifact. -/
inductive Ending where
  | error (now : Nat) (e : CompileError)
  | panic

namespace Ending

/-- What the request that leads does from there. -/
def moves : Ending → List (Move α)
  | .error now e => [.settle now (.error e), .publish]
  | .panic => [.unwind, .close]

def leave (c : Cache α) (f : Fingerprint) (number : Nat) : Ending → Cache α
  | .error now e => c.complete now f number (.error e)
  | .panic => c.abandon f number

def progress (number : Nat) : Ending → Progress α
  | .error _ e => .led number (.error e)
  | .panic => .panicked number

/-- A panic does not count as a failure. -/
def failures : Ending → Nat
  | .error _ _ => 1
  | .panic => 0

end Ending

/-! ### One slot and no other -/

namespace Cache

variable {c c' : Cache α} {f : Fingerprint} {now : Nat}

/-- No slot has changed but that of one fingerprint, and nothing was evicted. -/
structure Confined (f : Fingerprint) (c c' : Cache α) : Prop where
  slots : ∀ g, g ≠ f → c'.slot? g = c.slot? g
  evictions : c'.counts.evictions = c.counts.evictions

theorem confined_lead (c : Cache α) (f : Fingerprint) : Confined f c (c.lead f).2 where
  slots _ hg := slot?_lead_ne c hg
  evictions := rfl

theorem confined_dropSlot (h : c.Sorted) (f : Fingerprint) : Confined f c (c.dropSlot f) where
  slots _ hg := slot?_dropSlot_ne h hg
  evictions := rfl

theorem confined_settle_error (h : c.Sorted) (now : Nat) (f : Fingerprint) (number : Nat)
    (e : CompileError) : Confined f c (c.settle now f number (.error e)) where
  slots := (confined_dropSlot h f).slots
  evictions := rfl

/-- The cache is as it was, except that an artifact that had expired is gone, and a look-up that
missed and some failures are counted. -/
structure Recovers (c : Cache α) (now : Nat) (f : Fingerprint) (failures : Nat) (c' : Cache α) :
    Prop where
  slots : c'.slots = Dictionary.erase f.text c.slots
  expired : ∀ x ∈ c.slots, x ∉ c'.slots →
    ∃ e, x = (f.text, .ready e) ∧ e.isExpired now = true
  counts : c'.counts =
    { c.counts with misses := c.counts.misses + 1, failures := c.counts.failures + failures }
  maxEntries : c'.maxEntries = c.maxEntries
  ttl : c'.ttl = c.ttl

theorem isExpired_of_contains (h : c.contains now f = false) {e : Entry α}
    (he : c.slot? f = some (.ready e)) : e.isExpired now = true := by
  simpa [contains, entryOf?, he] using h

theorem lookup_eq_lead (hfree : ∀ n, c.slot? f ≠ some (.pending n))
    (hlive : c.contains now f = false) : c.lookup now f = c.lead f := by
  unfold lookup
  cases hf : c.slot? f with
  | none => rfl
  | some s =>
    cases s with
    | pending n => exact absurd hf (hfree n)
    | ready e => simp [isExpired_of_contains hlive hf]

theorem expired_of_erased (h : c.Sorted) (hfree : ∀ n, c.slot? f ≠ some (.pending n))
    (hlive : c.contains now f = false) {x : String × Slot α} (hx : x ∈ c.slots)
    (hgone : x ∉ Dictionary.erase f.text c.slots) :
    ∃ e, x = (f.text, .ready e) ∧ e.isExpired now = true := by
  obtain ⟨name, s⟩ := x
  have hname : name = f.text := by
    simpa [Dictionary.erase, hx] using hgone
  subst hname
  have hf := (slot?_eq_some_iff h s).mpr hx
  cases s with
  | pending n => exact absurd hf (hfree n)
  | ready e => exact ⟨e, rfl, isExpired_of_contains hlive hf⟩

theorem slots_leave (c : Cache α) (f : Fingerprint) (number : Nat) (ending : Ending) :
    (ending.leave c f number).slots = Dictionary.erase f.text c.slots := by
  cases ending <;> rfl

theorem recovers_leave (h : c.Sorted) (hfree : ∀ n, c.slot? f ≠ some (.pending n))
    (hlive : c.contains now f = false) (number : Nat) (ending : Ending) :
    Recovers c now f ending.failures (ending.leave (c.lead f).2 f number) := by
  -- the name that is erased is the one that the look-up has put
  have hslots : (ending.leave (c.lead f).2 f number).slots = Dictionary.erase f.text c.slots :=
    (slots_leave _ f number ending).trans (Dictionary.erase_put f.text _ c.slots)
  constructor
  case slots => exact hslots
  case expired =>
    intro x hx hgone
    rw [hslots] at hgone
    exact expired_of_erased h hfree hlive hx hgone
  all_goals cases ending <;> rfl

theorem Recovers.slot? (h : c.Sorted) {failures : Nat} (hr : Recovers c now f failures c') :
    c'.slot? f = none := by
  unfold Cache.slot?
  rw [hr.slots]
  exact Dictionary.get?_erase_self h f.text

theorem Sheds.slot?_eq_none (h : Sheds c c') (hf : c.slot? f = none) : c'.slot? f = none := by
  cases hf' : c'.slot? f with
  | none => rfl
  | some s =>
    cases s with
    | pending n => simp [(h.pending_iff f n).mp hf'] at hf
    | ready e =>
      obtain ⟨e', he', _⟩ := h.stored f e hf'
      simp [he'] at hf

end Cache

/-- The request leads and has made no artifact, so far or at all. -/
def Progress.madeNothing : Progress α → Bool
  | .compiling _ | .settled _ (.error _) | .led _ (.error _) | .unwinding _ | .panicked _ => true
  | _ => false

/-- The compilation that the request leads has come to an error or has panicked. -/
def Progress.failed : Progress α → Bool
  | .settled _ (.error _) | .led _ (.error _) | .unwinding _ | .panicked _ => true
  | _ => false

theorem Progress.madeNothing_of_failed {p : Progress α} (h : p.failed = true) :
    p.madeNothing = true := by
  cases p with
  | settled _ outcome | led _ outcome =>
    cases outcome with
    | error => rfl
    | ok => cases h
  | unwinding | panicked | compiling => rfl
  | hit | waiting | joined | cancelled => cases h

namespace Traffic

open Cache

variable {t t' u : Traffic α} {steps : List (Step α)} {s : Step α} {f : Fingerprint} {now : Nat}

/-- All steps of a request that nothing comes between, with this end. -/
def attempt (t : Traffic α) (f : Fingerprint) (now : Nat) (ending : Ending) : List (Step α) :=
  .request f now :: ending.moves.map (.move t.requests.length)

/-- The request that takes a step, new or not. -/
def taker? (t : Traffic α) : Step α → Option Nat
  | .request _ _ => some t.requests.length
  | .move i _ => some i
  | .invalidate _ | .clear | .purge _ => none

/-! ### A request by itself -/

theorem step?_last {cache cache' : Cache α} {rs : List (Request α)} {p p' : Progress α}
    {m : Move α} (h : cache.move? f p m = some (cache', p')) :
    step? ⟨cache, rs ++ [⟨f, p⟩]⟩ (.move rs.length m) = some ⟨cache', rs ++ [⟨f, p'⟩]⟩ := by
  simp [step?, h]

theorem step?_of_lead (h : t.cache.lookup now f = t.cache.lead f) :
    t.step? (.request f now) = some ⟨(t.cache.lead f).2,
      t.requests ++ [⟨f, .compiling t.cache.compilations.length⟩]⟩ := by
  simp only [step?, h]
  rfl

theorem run?_attempt (h : t.cache.lookup now f = t.cache.lead f) (ending : Ending) :
    t.run? (t.attempt f now ending) = some
      ⟨ending.leave (t.cache.lead f).2 f t.cache.compilations.length,
        t.requests ++ [⟨f, ending.progress t.cache.compilations.length⟩]⟩ := by
  cases ending with
  | error | panic =>
    simp only [attempt, Ending.moves, List.map_cons, List.map_nil, run?, List.foldlM_cons,
      List.foldlM_nil, step?_of_lead h, Option.bind_eq_bind, Option.bind_some]
    rw [step?_last rfl, Option.bind_some, step?_last rfl]
    rfl

/-! ### Until the next request for the fingerprint -/

theorem Sound.free_of_step (h : t.Sound) (hf : t.cache.slot? f = none)
    (hs : t.step? s = some t') (hne : ∀ now, s ≠ .request f now) : t'.cache.slot? f = none := by
  cases s with
  | request g now =>
    have hg : f ≠ g := by
      rintro rfl
      exact hne now rfl
    obtain ⟨found, cache, hl, rfl⟩ := looked_of_step? h.sorted hs
    cases hl with
    | hit _ hc => exact hc.slot?_eq_none hf
    | wait _ hc => exact hc.slot?_eq_none hf
    | lead => exact (slot?_lead_ne _ hg).trans hf
  | move i m =>
    obtain ⟨⟨g, q⟩, cache, p, hr, hm, rfl⟩ := move_of_step? hs
    dsimp only at hm
    -- the slot is not pending, so nobody compiles for it
    have hother {n : Nat} (hq : q = .compiling n) : f ≠ g := by
      rintro rfl
      subst hq
      simp [h.slot_of_compiling hr] at hf
    cases hm with
    | settle n now outcome =>
      have hg := hother rfl
      cases outcome with
      | ok a =>
        apply (sheds_settle_ok h.sorted now g n a).slot?_eq_none
        exact (slot?_setSlot_ne hg _).trans hf
      | error e => exact (slot?_dropSlot_ne h.sorted hg).trans hf
    | unwind n => exact (slot?_dropSlot_ne h.sorted (hother rfl)).trans hf
    | publish | close | receive | cancel => exact hf
  | invalidate g =>
    cases hs
    exact (sheds_invalidate h.sorted g).slot?_eq_none hf
  | clear =>
    cases hs
    exact (sheds_clear h.sorted).slot?_eq_none hf
  | purge now =>
    cases hs
    exact (sheds_purge h.sorted now).slot?_eq_none hf

theorem Sound.free_of_run (h : t.Sound) (hf : t.cache.slot? f = none)
    (hrun : t.run? steps = some u) (hne : ∀ now, .request f now ∉ steps) :
    u.cache.slot? f = none := by
  refine (of_run? (P := fun v => v.Sound ∧ v.cache.slot? f = none) ?_ hrun ⟨h, hf⟩).2
  rintro v w s hs ⟨hv, hfree⟩ hw
  refine ⟨hv.step hw, hv.free_of_step hfree hw ?_⟩
  rintro now rfl
  exact hne now hs

theorem compiles_of_free (hf : t.cache.slot? f = none) (now : Nat) :
    ∃ t', t.step? (.request f now) = some t' ∧
      t'.Compiles t.requests.length f t.cache.compilations.length := by
  have hlead : t.cache.lookup now f = t.cache.lead f := by
    simp only [lookup, hf]
  exact ⟨_, step?_of_lead hlead, getElem?_push.mpr (.inr ⟨rfl, rfl⟩)⟩

/-! ### Requests among others -/

theorem madeNothing_of_moved {c c' : Cache α} {p p' : Progress α} {m : Move α}
    (h : Moved c f p m c' p') (hp : p'.madeNothing = true) : p.madeNothing = true := by
  cases h with
  | settle | unwind | close => rfl
  | publish n outcome =>
    cases outcome with
    | ok => cases hp
    | error => rfl
  | receive | cancel => cases hp

/-- The request in this place is still there, and if it has made nothing it had made nothing when
it was this one. -/
def Continues (t : Traffic α) (i : Nat) (r : Request α) : Prop :=
  ∃ r', t.requests[i]? = some r' ∧ r'.fingerprint = r.fingerprint ∧
    (r'.progress.madeNothing = true → r.progress.madeNothing = true)

theorem continues_of_run? (hrun : t.run? steps = some u) {i : Nat} {r : Request α}
    (hr : t.requests[i]? = some r) : u.Continues i r := by
  refine of_run? (P := fun v => v.Continues i r) ?_ hrun ⟨r, hr, rfl, id⟩
  rintro v w s - ⟨x, hx, hf, hp⟩ hw
  obtain ⟨r', hr', hf', hp'⟩ := exists_of_step?
    (R := fun p p' => p'.madeNothing = true → p.madeNothing = true) (fun _ => id)
    madeNothing_of_moved hw hx
  exact ⟨r', hr', hf'.trans hf, fun hn => hp (hp' hn)⟩

theorem exists_taker (hs : t.step? s = some t') {i : Nat} (hi : t.taker? s = some i) :
    ∃ r, t'.requests[i]? = some r := by
  cases s with
  | request f now =>
    cases hi
    cases hs
    exact ⟨_, getElem?_push.mpr (.inr ⟨rfl, rfl⟩)⟩
  | move j m =>
    cases hi
    obtain ⟨x, cache, p, hx, _, rfl⟩ := move_of_step? hs
    exact ⟨_, (getElem?_update hx).mpr (by rw [if_pos rfl])⟩
  | invalidate | clear | purge => cases hi

theorem Sound.confined (h : t.Sound) (hs : t.step? s = some t') {i : Nat}
    (hi : t.taker? s = some i) {r : Request α} (hr : t'.requests[i]? = some r)
    (hp : r.progress.madeNothing = true) : Confined r.fingerprint t.cache t'.cache := by
  cases s with
  | request f now =>
    cases hi
    obtain ⟨found, cache, hl, rfl⟩ := looked_of_step? h.sorted hs
    obtain rfl : ⟨f, .ofLookup found⟩ = r := by simpa using hr
    cases hl with
    | hit | wait => cases hp
    | lead => exact confined_lead t.cache f
  | move j m =>
    cases hi
    obtain ⟨⟨f, q⟩, cache, p, hx, hm, rfl⟩ := move_of_step? hs
    have hr := (getElem?_update hx).mp hr
    rw [if_pos rfl] at hr
    subst hr
    cases hm with
    | settle n now outcome =>
      cases outcome with
      | ok => cases hp
      | error e => exact confined_settle_error h.sorted now f n e
    | unwind n => exact confined_dropSlot h.sorted f
    | publish | close => exact ⟨fun _ _ => rfl, rfl⟩
    | receive | cancel => cases hp
  | invalidate | clear | purge => cases hi

/-- From every state that is reached: a request that finds no artifact and nothing in progress, and
ends with an error or a panic before others take a step, leaves the cache as it was but for an
expired artifact of its own. The next one for the fingerprint compiles again. Among the steps of
others, those of a request that fails change no slot but its own and evict nothing. -/
theorem failures_leave_no_trace {maxEntries ttl : Option Nat}
    (h : (start maxEntries ttl).run? steps = some t) :
    (∀ f now ending, (∀ n, t.cache.slot? f ≠ some (.pending n)) →
      t.cache.contains now f = false →
      ∃ t', t.run? (t.attempt f now ending) = some t' ∧
        Recovers t.cache now f ending.failures t'.cache ∧
        t'.requests = t.requests ++ [⟨f, ending.progress t.cache.compilations.length⟩] ∧
        ∀ later u, (∀ now, .request f now ∉ later) → t'.run? later = some u →
          ∀ now, ∃ u', u.step? (.request f now) = some u' ∧
            u'.Compiles u.requests.length f u.cache.compilations.length) ∧
    ∀ s t' later u i r, t.step? s = some t' → t'.run? later = some u → t.taker? s = some i →
      u.requests[i]? = some r → r.progress.failed = true →
      Confined r.fingerprint t.cache t'.cache := by
  have hsound := sound_of_run? h
  constructor
  · intro f now ending hfree hlive
    have hrun := run?_attempt (lookup_eq_lead hfree hlive) ending
    have hcache := recovers_leave hsound.sorted hfree hlive t.cache.compilations.length ending
    refine ⟨_, hrun, hcache, rfl, ?_⟩
    intro later u hlater hu now'
    have hnone := (hsound.run hrun).free_of_run (hcache.slot? hsound.sorted) hu hlater
    exact compiles_of_free hnone now'
  · intro s t' later u i r hs hu hi hr hfailed
    obtain ⟨r', hr'⟩ := exists_taker hs hi
    obtain ⟨x, hx, hf, hp⟩ := continues_of_run? hu hr'
    cases hr.symm.trans hx
    rw [hf]
    exact hsound.confined hs hi hr' (hp (Progress.madeNothing_of_failed hfailed))

/-- One artifact has expired, one has not, and another is being compiled. -/
def crowding : List (Step Nat) :=
  [.request ⟨"a"⟩ 0, .move 0 (.settle 1 (.ok 7)), .request ⟨"b"⟩ 3, .move 1 (.settle 4 (.ok 8)),
    .request ⟨"c"⟩ 5]

def crowded : Traffic Nat where
  cache := ⟨[("a", .ready ⟨⟨0, 7⟩, 1, some 6, 1⟩), ("b", .ready ⟨⟨1, 8⟩, 4, some 9, 4⟩),
    ("c", .pending 2)], [.running, .running, .running], some 2, some 5, ⟨0, 3, 0, 0, 0, 0⟩⟩
  requests := [⟨⟨"a"⟩, .settled 0 (.ok 7)⟩, ⟨⟨"b"⟩, .settled 1 (.ok 8)⟩, ⟨⟨"c"⟩, .compiling 2⟩]

/-- The artifact that has expired is compiled again, to an error, when the other is done. -/
def relapse : List (Step Nat) :=
  [.move 2 (.settle 8 (.ok 9)), .move 3 (.settle 9 (.error (.abandoned "a"))), .move 3 .publish]

theorem failures_leave_no_trace_crowded :
    (start (some 2) (some 5)).run? crowding = some crowded ∧
      (∃ t', crowded.run? (crowded.attempt ⟨"a"⟩ 7 .panic) = some t' ∧
        Recovers crowded.cache 7 ⟨"a"⟩ 0 t'.cache ∧
        ∃ u', t'.step? (.request ⟨"a"⟩ 8) = some u' ∧ u'.Compiles 4 ⟨"a"⟩ 4) ∧
      ∃ t' u, crowded.step? (.request ⟨"a"⟩ 7) = some t' ∧ t'.run? relapse = some u ∧
        u.requests[3]? = some ⟨⟨"a"⟩, .led 3 (.error (.abandoned "a"))⟩ ∧
        Confined ⟨"a"⟩ crowded.cache t'.cache := by
  have hrun : (start (some 2) (some 5)).run? crowding = some crowded := by rfl
  obtain ⟨halone, hamong⟩ := failures_leave_no_trace hrun
  refine ⟨hrun, ?_, ?_⟩
  · obtain ⟨t', ht', hr, -, hagain⟩ := halone ⟨"a"⟩ 7 .panic nofun rfl
    obtain ⟨u', hu', hc⟩ := hagain [] t' nofun rfl 8
    cases ht'
    exact ⟨_, rfl, hr, u', hu', hc⟩
  · refine ⟨_, _, rfl, rfl, rfl, ?_⟩
    exact hamong (.request ⟨"a"⟩ 7) _ relapse _ 3 _ rfl rfl rfl rfl rfl

end Traffic

end EmbeddedLang
