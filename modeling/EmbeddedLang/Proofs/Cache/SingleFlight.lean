import EmbeddedLang.Proofs.Cache.Slots
import Mathlib.Data.List.Induction

/-!
Nothing is compiled twice at the same time.

In every state that requests reach in whatever order of their steps, the pending slots belong one to
one to the requests that are compiling, and nobody else can take a slot from such a request.
-/

namespace EmbeddedLang

variable {α : Type}

/-- The compilation that a request leads, and what those who wait for it can see of it. -/
def Progress.leads? : Progress α → Option (Nat × Compilation α)
  | .compiling n | .settled n _ | .unwinding n => some (n, .running)
  | .led n outcome => some (n, .finished outcome)
  | .panicked n => some (n, .abandoned)
  | .hit _ | .waiting _ | .joined _ _ | .cancelled _ => none

namespace Cache

variable {c c' : Cache α} {f : Fingerprint}

inductive Moved (c : Cache α) (f : Fingerprint) : Progress α → Move α → Cache α → Progress α → Prop
  | settle (n now : Nat) (outcome : Except CompileError α) :
    Moved c f (.compiling n) (.settle now outcome) (c.settle now f n outcome) (.settled n outcome)
  | publish (n : Nat) (outcome : Except CompileError α) :
    Moved c f (.settled n outcome) .publish (c.publish n outcome) (.led n outcome)
  | unwind (n : Nat) : Moved c f (.compiling n) .unwind (c.dropSlot f) (.unwinding n)
  | close (n : Nat) : Moved c f (.unwinding n) .close (c.close n) (.panicked n)
  | receive {n : Nat} {answer : Except CompileError (Shared α)}
    (told : c.await? f n = some answer) : Moved c f (.waiting n) .receive c (.joined n answer)
  | cancel (n : Nat) : Moved c f (.waiting n) .cancel c (.cancelled n)

theorem moved_of_move? {p p' : Progress α} {m : Move α} (h : c.move? f p m = some (c', p')) :
    Moved c f p m c' p' := by
  unfold move? at h
  split at h
  · cases h
    exact .settle _ _ _
  · cases h
    exact .publish _ _
  · cases h
    exact .unwind _
  · cases h
    exact .close _
  · obtain ⟨answer, ha, he⟩ := Option.map_eq_some_iff.mp h
    cases he
    exact .receive ha
  · cases h
    exact .cancel _
  · cases h

end Cache

namespace Traffic

open Cache

variable {t t' : Traffic α}

def Leads (t : Traffic α) (i n : Nat) (s : Compilation α) : Prop :=
  ∃ r, t.requests[i]? = some r ∧ r.progress.leads? = some (n, s)

/-- The request in this place has missed, and has neither settled its slot nor given it up. -/
def Compiles (t : Traffic α) (i : Nat) (f : Fingerprint) (n : Nat) : Prop :=
  t.requests[i]? = some ⟨f, .compiling n⟩

/-- What can be relied on between any two steps. -/
structure Sound (t : Traffic α) : Prop where
  sorted : t.cache.Sorted
  told : ∀ i n s, t.Leads i n s → t.cache.compilations[n]? = some s
  leader_unique : ∀ i j n s s', t.Leads i n s → t.Leads j n s' → i = j
  pending_iff : ∀ (f : Fingerprint) (n : Nat), t.cache.slot? f = some (.pending n) ↔
    ∃ i : Nat, t.requests[i]? = some ⟨f, .compiling n⟩

theorem sound_start (maxEntries ttl : Option Nat) : (start maxEntries ttl : Traffic α).Sound where
  sorted := List.Pairwise.nil
  told := by
    rintro i n s ⟨r, hr, _⟩
    cases hr
  leader_unique := by
    rintro i j n s s' ⟨r, hr, _⟩
    cases hr
  pending_iff f n := by
    constructor
    · intro h
      cases h
    · rintro ⟨i, hi⟩
      cases hi

/-! ### One request more -/

theorem getElem?_push {rs : List (Request α)} {x r : Request α} {i : Nat} :
    (rs ++ [x])[i]? = some r ↔ rs[i]? = some r ∨ i = rs.length ∧ x = r := by
  grind

theorem leads_push {cache : Cache α} {x : Request α} {i n : Nat} {s : Compilation α} :
    Leads ⟨cache, t.requests ++ [x]⟩ i n s ↔
      t.Leads i n s ∨ i = t.requests.length ∧ x.progress.leads? = some (n, s) := by
  simp only [Leads, getElem?_push]
  grind

theorem Sound.push (h : t.Sound) {cache : Cache α} (hc : Sheds t.cache cache) {x : Request α}
    (hx : x.progress.leads? = none) : Sound ⟨cache, t.requests ++ [x]⟩ := by
  have hleads {i n s} : Leads ⟨cache, t.requests ++ [x]⟩ i n s ↔ t.Leads i n s := by
    simp [leads_push, hx]
  refine ⟨hc.sorted, ?_, ?_, ?_⟩
  · intro i n s hi
    rw [hc.compilations]
    exact h.told i n s (hleads.mp hi)
  · intro i j n s s' hi hj
    exact h.leader_unique i j n s s' (hleads.mp hi) (hleads.mp hj)
  · intro f n
    rw [hc.pending_iff, h.pending_iff]
    apply exists_congr
    intro i
    have hne : x ≠ ⟨f, .compiling n⟩ := by
      rintro rfl
      cases hx
    simp [getElem?_push, hne]

theorem Sound.shed (h : t.Sound) {cache : Cache α} (hc : Sheds t.cache cache) :
    Sound ⟨cache, t.requests⟩ where
  sorted := hc.sorted
  told i n s hi := by
    rw [hc.compilations]
    exact h.told i n s hi
  leader_unique := h.leader_unique
  pending_iff f n := (hc.pending_iff f n).trans (h.pending_iff f n)

theorem Sound.leads_lt (h : t.Sound) {i n : Nat} {s : Compilation α} (hi : t.Leads i n s) :
    n < t.cache.compilations.length :=
  (List.getElem?_eq_some_iff.mp (h.told i n s hi)).1

theorem Sound.lead (h : t.Sound) {f : Fingerprint}
    (free : ∀ n, t.cache.slot? f ≠ some (.pending n)) :
    Sound ⟨(t.cache.lead f).2,
      t.requests ++ [⟨f, .compiling t.cache.compilations.length⟩]⟩ := by
  have hleads {i n s} : Leads ⟨(t.cache.lead f).2,
      t.requests ++ [⟨f, .compiling t.cache.compilations.length⟩]⟩ i n s ↔
      t.Leads i n s ∨ i = t.requests.length ∧
        some (t.cache.compilations.length, .running) = some (n, s) := leads_push
  refine ⟨h.sorted.setSlot _ _, ?_, ?_, ?_⟩
  · intro i n s hi
    change (t.cache.compilations ++ [.running])[n]? = some s
    rcases hleads.mp hi with hi | ⟨_, hn⟩
    · rw [List.getElem?_append_left (h.leads_lt hi)]
      exact h.told i n s hi
    · cases hn
      simp
  · intro i j n s s' hi hj
    -- the numbers of older compilations are below the new one
    rcases hleads.mp hi with hi | ⟨hil, hin⟩ <;> rcases hleads.mp hj with hj | ⟨hjl, hjn⟩
    · exact h.leader_unique i j n s s' hi hj
    · cases hjn
      exact absurd (h.leads_lt hi) (Nat.lt_irrefl _)
    · cases hin
      exact absurd (h.leads_lt hj) (Nat.lt_irrefl _)
    · rw [hil, hjl]
  · intro g n
    by_cases hg : g = f
    · subst hg
      have hnone : ¬ ∃ i : Nat, t.requests[i]? = some ⟨g, .compiling n⟩ := fun hi =>
        free n ((h.pending_iff g n).mpr hi)
      simp only [slot?_lead_self, getElem?_push]
      grind
    · simp only [slot?_lead_ne _ hg, h.pending_iff, getElem?_push]
      grind

/-! ### A request that goes on -/

theorem getElem?_update {rs : List (Request α)} {x y r : Request α} {i j : Nat}
    (h : rs[i]? = some x) :
    (rs.set i y)[j]? = some r ↔ if i = j then y = r else rs[j]? = some r := by
  grind

theorem leads_update {cache : Cache α} {x y : Request α} {i j n : Nat} {s : Compilation α}
    (h : t.requests[i]? = some x) : Leads ⟨cache, t.requests.set i y⟩ j n s ↔
      if i = j then y.progress.leads? = some (n, s) else t.Leads j n s := by
  simp only [Leads, getElem?_update h]
  grind

/-- No request begins to compile with a move. What it leads stays the same but for what is told. -/
theorem Sound.update (h : t.Sound) {i : Nat} {r : Request α} (hr : t.requests[i]? = some r)
    (cache : Cache α) (p : Progress α) (hsorted : cache.Sorted)
    (hleads : p.leads?.map (·.1) = r.progress.leads?.map (·.1))
    (htold : ∀ n s, p.leads? = some (n, s) → cache.compilations[n]? = some s)
    (hothers : ∀ n, (∀ s, r.progress.leads? ≠ some (n, s)) →
      cache.compilations[n]? = t.cache.compilations[n]?)
    (hp : ∀ n, p ≠ .compiling n)
    (hslot : ∀ (g : Fingerprint) (n : Nat), cache.slot? g = some (.pending n) ↔
      t.cache.slot? g = some (.pending n) ∧ r ≠ ⟨g, .compiling n⟩) :
    Sound ⟨cache, t.requests.set i ⟨r.fingerprint, p⟩⟩ := by
  have hback {j n s} (hj : Leads ⟨cache, t.requests.set i ⟨r.fingerprint, p⟩⟩ j n s) :
      ∃ s, t.Leads j n s := by
    by_cases hij : i = j
    · subst hij
      have hn := (leads_update hr).mp hj
      rw [if_pos rfl] at hn
      have hsome : r.progress.leads?.map (·.1) = some n := by
        rw [← hleads, hn]
        rfl
      obtain ⟨⟨m, s'⟩, hm, rfl⟩ := Option.map_eq_some_iff.mp hsome
      exact ⟨s', r, hr, hm⟩
    · have hn := (leads_update hr).mp hj
      rw [if_neg hij] at hn
      exact ⟨s, hn⟩
  refine ⟨hsorted, ?_, ?_, ?_⟩
  · intro j n s hj
    have hn := (leads_update hr).mp hj
    split at hn
    · exact htold n s hn
    · next hij =>
      change cache.compilations[n]? = some s
      rw [hothers n]
      · exact h.told j n s hn
      · intro s' hs'
        exact hij (h.leader_unique i j n s' s ⟨r, hr, hs'⟩ hn)
  · intro j k n s s' hj hk
    obtain ⟨_, hj⟩ := hback hj
    obtain ⟨_, hk⟩ := hback hk
    exact h.leader_unique j k n _ _ hj hk
  · intro g n
    rw [hslot, h.pending_iff]
    constructor
    · rintro ⟨⟨j, hj⟩, hne⟩
      have hij : i ≠ j := by
        rintro rfl
        exact hne (Option.some.inj (hr.symm.trans hj))
      exact ⟨j, (getElem?_update hr).mpr (by rwa [if_neg hij])⟩
    · rintro ⟨j, hj⟩
      have hn := (getElem?_update hr).mp hj
      split at hn
      · cases hn
        exact absurd rfl (hp n)
      · next hij =>
        refine ⟨⟨j, hn⟩, ?_⟩
        rintro rfl
        exact hij (h.leader_unique i j n .running .running ⟨_, hr, rfl⟩ ⟨_, hn, rfl⟩)

theorem Sound.slot_of_compiling (h : t.Sound) {i n : Nat} {f : Fingerprint}
    (hr : t.requests[i]? = some ⟨f, .compiling n⟩) : t.cache.slot? f = some (.pending n) :=
  (h.pending_iff f n).mpr ⟨i, hr⟩

/-- A compilation that ends frees its own slot and no other. -/
theorem Sound.frees (h : t.Sound) {i n : Nat} {f : Fingerprint}
    (hr : t.requests[i]? = some ⟨f, .compiling n⟩) (cache : Cache α) (p : Progress α)
    (hsorted : cache.Sorted) (hcompilations : cache.compilations = t.cache.compilations)
    (hslot : ∀ g s, cache.slot? g = some (.pending s) ↔
      g ≠ f ∧ t.cache.slot? g = some (.pending s))
    (hleads : p.leads? = some (n, .running)) (hp : ∀ k, p ≠ .compiling k) :
    Sound ⟨cache, t.requests.set i ⟨f, p⟩⟩ := by
  have hn := h.told i n .running ⟨_, hr, rfl⟩
  apply h.update hr cache p hsorted
  · rw [hleads]
    rfl
  · intro k s hk
    rw [hleads] at hk
    cases hk
    rwa [hcompilations]
  · intro k _
    rw [hcompilations]
  · exact hp
  · intro g k
    rw [hslot]
    constructor
    · rintro ⟨hg, hk⟩
      refine ⟨hk, ?_⟩
      rintro ⟨⟩
      exact hg rfl
    · rintro ⟨hk, hne⟩
      refine ⟨?_, hk⟩
      rintro rfl
      cases (h.slot_of_compiling hr).symm.trans hk
      exact hne rfl

/-- Those who wait are told of a compilation whose slot is freed already. -/
theorem Sound.tells (h : t.Sound) {i n : Nat} {r : Request α} (hr : t.requests[i]? = some r)
    (hleads : r.progress.leads? = some (n, .running)) (hrunning : ∀ k, r.progress ≠ .compiling k)
    (s : Compilation α) (p : Progress α) (hs : p.leads? = some (n, s))
    (hp : ∀ k, p ≠ .compiling k) :
    Sound ⟨{ t.cache with compilations := t.cache.compilations.set n s },
      t.requests.set i ⟨r.fingerprint, p⟩⟩ := by
  have hn := h.leads_lt ⟨_, hr, hleads⟩
  apply h.update hr { t.cache with compilations := t.cache.compilations.set n s } p h.sorted
  · rw [hs, hleads]
    rfl
  · intro k s' hk
    rw [hs] at hk
    cases hk
    exact List.getElem?_set_self hn
  · intro k hk
    have hne : n ≠ k := by
      rintro rfl
      exact hk _ hleads
    exact List.getElem?_set_ne hne
  · exact hp
  · intro g k
    have hr : r ≠ ⟨g, .compiling k⟩ := by
      rintro rfl
      exact hrunning k rfl
    exact (and_iff_left hr).symm

theorem Sound.parts (h : t.Sound) {i n : Nat} {f : Fingerprint}
    (hr : t.requests[i]? = some ⟨f, .waiting n⟩) (p : Progress α) (hp : p.leads? = none) :
    Sound ⟨t.cache, t.requests.set i ⟨f, p⟩⟩ := by
  apply h.update hr t.cache p h.sorted
  · rw [hp]
    rfl
  · intro k s hk
    rw [hp] at hk
    cases hk
  · intro k _
    rfl
  · rintro k rfl
    cases hp
  · simp

theorem Sound.move (h : t.Sound) {i : Nat} {r : Request α} (hr : t.requests[i]? = some r)
    {m : Move α} {cache : Cache α} {p : Progress α}
    (hm : Moved t.cache r.fingerprint r.progress m cache p) :
    Sound ⟨cache, t.requests.set i ⟨r.fingerprint, p⟩⟩ := by
  obtain ⟨f, q⟩ := r
  dsimp only at hm ⊢
  cases hm with
  | settle n now outcome =>
    exact h.frees hr _ _ (h.sorted.settle ..) (compilations_settle h.sorted ..)
      (settle_pending_iff h.sorted now f n outcome) rfl nofun
  | unwind n =>
    exact h.frees hr _ _ (h.sorted.dropSlot f) rfl
      (fun g k => slot?_dropSlot_eq_some_iff h.sorted f g _) rfl nofun
  | publish n outcome => exact h.tells hr rfl nofun (.finished outcome) (.led n outcome) rfl nofun
  | close n => exact h.tells hr rfl nofun .abandoned (.panicked n) rfl nofun
  | @receive n answer _ => exact h.parts hr (.joined n answer) rfl
  | cancel n => exact h.parts hr (.cancelled n) rfl

theorem looked_of_step? (h : t.cache.Sorted) {f : Fingerprint} {now : Nat}
    (hs : t.step? (.request f now) = some t') :
    ∃ found cache, Looked t.cache now f found cache ∧
      t' = ⟨cache, t.requests ++ [⟨f, .ofLookup found⟩]⟩ :=
  ⟨_, _, lookup_looked h now f, (Option.some.inj hs).symm⟩

theorem move_of_step? {i : Nat} {m : Move α} (hs : t.step? (.move i m) = some t') :
    ∃ r cache p, t.requests[i]? = some r ∧ Moved t.cache r.fingerprint r.progress m cache p ∧
      t' = ⟨cache, t.requests.set i ⟨r.fingerprint, p⟩⟩ := by
  obtain ⟨r, hr, hs⟩ := Option.bind_eq_some_iff.mp hs
  obtain ⟨⟨cache, p⟩, hm, hs⟩ := Option.bind_eq_some_iff.mp hs
  cases hs
  exact ⟨r, cache, p, hr, moved_of_move? hm, rfl⟩

/-- Requests stay in their places, and what every move keeps is kept by a step. -/
theorem exists_of_step? {R : Progress α → Progress α → Prop} (hsame : ∀ p, R p p)
    (hmove : ∀ {c c' f p p' m}, Moved c f p m c' p' → R p p') {s : Step α}
    (hs : t.step? s = some t') {i : Nat} {r : Request α} (hr : t.requests[i]? = some r) :
    ∃ r', t'.requests[i]? = some r' ∧ r'.fingerprint = r.fingerprint ∧
      R r.progress r'.progress := by
  cases s with
  | request f now =>
    cases hs
    exact ⟨r, getElem?_push.mpr (.inl hr), rfl, hsame _⟩
  | move j m =>
    obtain ⟨x, cache, p, hx, hm, rfl⟩ := move_of_step? hs
    by_cases hij : j = i
    · subst hij
      cases hx.symm.trans hr
      exact ⟨⟨r.fingerprint, p⟩, (getElem?_update hx).mpr (by rw [if_pos rfl]), rfl, hmove hm⟩
    · exact ⟨r, (getElem?_update hx).mpr (by rwa [if_neg hij]), rfl, hsame _⟩
  | invalidate | clear | purge =>
    cases hs
    exact ⟨r, hr, rfl, hsame _⟩

theorem Sound.step (h : t.Sound) {s : Step α} (hs : t.step? s = some t') : t'.Sound := by
  cases s with
  | request f now =>
    obtain ⟨found, cache, hl, rfl⟩ := looked_of_step? h.sorted hs
    cases hl with
    | hit _ hc => exact h.push hc rfl
    | wait _ hc => exact h.push hc rfl
    | lead free => exact h.lead free
  | move i m =>
    obtain ⟨r, cache, p, hr, hm, rfl⟩ := move_of_step? hs
    exact h.move hr hm
  | invalidate f =>
    cases hs
    exact h.shed (sheds_invalidate h.sorted f)
  | clear =>
    cases hs
    exact h.shed (sheds_clear h.sorted)
  | purge now =>
    cases hs
    exact h.shed (sheds_purge h.sorted now)

/-! ### All runs -/

/-- The request that no longer compiles after this step. -/
def ended? : Step α → Option Nat
  | .move i (.settle _ _) | .move i .unwind => some i
  | _ => none

theorem Sound.compiles_unique (h : t.Sound) {i j n k : Nat} {f : Fingerprint}
    (hi : t.Compiles i f n) (hj : t.Compiles j f k) : i = j := by
  have hn := (h.slot_of_compiling hi).symm.trans (h.slot_of_compiling hj)
  cases hn
  exact h.leader_unique i j n .running .running ⟨_, hi, rfl⟩ ⟨_, hj, rfl⟩

theorem Sound.pending_of_move (h : t.Sound) {i j n : Nat} {f : Fingerprint}
    (hi : t.Compiles i f n) {r : Request α} (hr : t.requests[j]? = some r) {m : Move α}
    {cache : Cache α} {p : Progress α} (hm : Moved t.cache r.fingerprint r.progress m cache p)
    (hne : ended? (.move j m) ≠ some i) : cache.slot? f = some (.pending n) := by
  obtain ⟨g, q⟩ := r
  dsimp only at hm
  have hf := h.slot_of_compiling hi
  -- only another compilation of `f` could free the slot, and there is none
  have hother {k : Nat} (hk : q = .compiling k) (hij : j ≠ i) : f ≠ g := by
    rintro rfl
    subst hk
    exact hij (h.compiles_unique hr hi)
  cases hm with
  | settle k now outcome =>
    have hij : j ≠ i := fun he => hne (congrArg some he)
    exact (settle_pending_iff h.sorted ..).mpr ⟨hother rfl hij, hf⟩
  | unwind k =>
    have hij : j ≠ i := fun he => hne (congrArg some he)
    exact (slot?_dropSlot_eq_some_iff h.sorted ..).mpr ⟨hother rfl hij, hf⟩
  | publish | close | receive | cancel => exact hf

theorem Sound.pending_of_step (h : t.Sound) {i n : Nat} {f : Fingerprint} (hi : t.Compiles i f n)
    {s : Step α} (hs : t.step? s = some t') (hne : ended? s ≠ some i) :
    t'.cache.slot? f = some (.pending n) := by
  have hf := h.slot_of_compiling hi
  cases s with
  | request g now =>
    obtain ⟨found, cache, hl, rfl⟩ := looked_of_step? h.sorted hs
    cases hl with
    | hit _ hc => exact (hc.pending_iff f n).mpr hf
    | wait _ hc => exact (hc.pending_iff f n).mpr hf
    | lead free =>
      have hg : f ≠ g := by
        rintro rfl
        exact free n hf
      exact (slot?_lead_ne _ hg).trans hf
  | move j m =>
    obtain ⟨r, cache, p, hr, hm, rfl⟩ := move_of_step? hs
    exact h.pending_of_move hi hr hm hne
  | invalidate g =>
    cases hs
    exact ((sheds_invalidate h.sorted g).pending_iff f n).mpr hf
  | clear =>
    cases hs
    exact ((sheds_clear h.sorted).pending_iff f n).mpr hf
  | purge now =>
    cases hs
    exact ((sheds_purge h.sorted now).pending_iff f n).mpr hf

theorem run?_concat {steps : List (Step α)} {s : Step α} :
    t.run? (steps ++ [s]) = some t' ↔ ∃ u, t.run? steps = some u ∧ u.step? s = some t' := by
  simp [run?, List.foldlM_append, Option.bind_eq_some_iff]

/-- What each step of a run keeps holds at its end. -/
theorem of_run? {P : Traffic α → Prop} {steps : List (Step α)}
    (hstep : ∀ {u v s}, s ∈ steps → P u → u.step? s = some v → P v)
    (hrun : t.run? steps = some t') (h : P t) : P t' := by
  induction steps generalizing t with
  | nil =>
    cases hrun
    exact h
  | cons s rest ih =>
    obtain ⟨u, hu, hrest⟩ := Option.bind_eq_some_iff.mp hrun
    have hfirst : P u := hstep List.mem_cons_self h hu
    exact ih (fun hs => hstep (List.mem_cons_of_mem _ hs)) hrest hfirst

theorem Sound.run (h : t.Sound) {steps : List (Step α)} (hrun : t.run? steps = some t') :
    t'.Sound :=
  of_run? (fun _ hu => hu.step) hrun h

theorem sound_of_run? {maxEntries ttl : Option Nat} {steps : List (Step α)}
    (h : (start maxEntries ttl).run? steps = some t) : t.Sound :=
  (sound_start maxEntries ttl).run h

/-- At any time, whatever came before, a slot is pending exactly if a request compiles for it.
There is but one such request, and until it has come to its own end no step takes the slot away. -/
theorem single_flight {maxEntries ttl : Option Nat} {steps : List (Step α)}
    (h : (start maxEntries ttl).run? steps = some t) (f : Fingerprint) :
    (∀ n, t.cache.slot? f = some (.pending n) ↔ ∃ i, t.Compiles i f n) ∧
      (∀ i j n k, t.Compiles i f n → t.Compiles j f k → i = j) ∧
      ∀ i n s t', t.Compiles i f n → t.step? s = some t' → ended? s ≠ some i →
        t'.cache.slot? f = some (.pending n) := by
  have hsound := sound_of_run? h
  refine ⟨?_, ?_, ?_⟩
  · intro n
    exact hsound.pending_iff f n
  · intro i j n k hi hj
    exact hsound.compiles_unique hi hj
  · intro i n s t' hi hs hne
    exact hsound.pending_of_step hi hs hne

/-- An entry that has expired is compiled again, while another request waits. -/
def renewal : List (Step Nat) :=
  [.request ⟨"a"⟩ 0, .move 0 (.settle 1 (.ok 7)), .request ⟨"a"⟩ 9, .request ⟨"a"⟩ 9,
    .move 0 .publish, .clear]

def renewed : Traffic Nat where
  cache := ⟨[("a", .pending 1)], [.finished (.ok 7), .running], none, some 5, ⟨0, 2, 1, 0, 0, 0⟩⟩
  requests := [⟨⟨"a"⟩, .led 0 (.ok 7)⟩, ⟨⟨"a"⟩, .compiling 1⟩, ⟨⟨"a"⟩, .waiting 1⟩]

theorem single_flight_renewal :
    (start none (some 5)).run? renewal = some renewed ∧ renewed.Compiles 1 ⟨"a"⟩ 1 ∧
      ∀ t', renewed.step? (.purge 20) = some t' → t'.cache.slot? ⟨"a"⟩ = some (.pending 1) := by
  have hrun : (start none (some 5)).run? renewal = some renewed := by rfl
  have hcompiles : renewed.Compiles 1 ⟨"a"⟩ 1 := rfl
  refine ⟨hrun, hcompiles, ?_⟩
  intro t' ht
  exact (single_flight hrun ⟨"a"⟩).2.2 1 1 (.purge 20) t' hcompiles ht (by simp [ended?])

end Traffic

end EmbeddedLang
