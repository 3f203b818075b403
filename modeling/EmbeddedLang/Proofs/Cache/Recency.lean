import EmbeddedLang.Proofs.Cache.Balance

/-!
A cache with a limit keeps what was used last.

The order of use is a list of its own, which knows look-ups, artifacts and removals but neither
slots nor times. As long as the clock goes on from reading to reading, the cache stores exactly what
is in the list.
-/

namespace EmbeddedLang

variable {α : Type}

/-- What the clock reads in a step, if the step looks at it. -/
def Step.reading? : Step α → Option Nat
  | .request _ now | .purge now => some now
  | .move _ (.settle now (.ok _)) => some now
  | .move _ _ | .invalidate _ | .clear => none

/-- Fingerprints in the order of their last use, the latest first. Requests are named by their place
among those made, and what was dropped for want of room is counted. -/
structure Recency where
  requested : List Fingerprint
  order : List Fingerprint
  dropped : Nat

namespace Recency

def empty : Recency :=
  ⟨[], [], 0⟩

def toFront (f : Fingerprint) (order : List Fingerprint) : List Fingerprint :=
  f :: order.erase f

/-- Drops from the back what is over the limit. -/
def trim (r : Recency) (most : Nat) : Recency :=
  { r with
    order := r.order.take most
    dropped := r.dropped + (r.order.length - most) }

def step (most : Nat) (r : Recency) : Step α → Recency
  | .request f _ =>
    { r with
      requested := r.requested ++ [f]
      order := if f ∈ r.order then toFront f r.order else r.order }
  | .move i (.settle _ (.ok _)) =>
    match r.requested[i]? with
    | some f => trim { r with order := toFront f r.order } most
    | none => r
  | .move _ _ | .purge _ => r
  | .invalidate f => { r with order := r.order.erase f }
  | .clear => { r with order := [] }

def run (most : Nat) (steps : List (Step α)) : Recency :=
  steps.foldl (step most) empty

theorem run_concat (most : Nat) (steps : List (Step α)) (s : Step α) :
    run most (steps ++ [s]) = (run most steps).step most s := by
  simp [run]

theorem length_toFront_of_mem {f : Fingerprint} {order : List Fingerprint} (h : f ∈ order) :
    (toFront f order).length = order.length := by
  have hpos := List.length_pos_of_mem h
  rw [toFront, List.length_cons, List.length_erase_of_mem h]
  omega

theorem length_toFront_of_not_mem {f : Fingerprint} {order : List Fingerprint} (h : f ∉ order) :
    (toFront f order).length = order.length + 1 := by
  rw [toFront, List.length_cons, List.erase_of_not_mem h]

end Recency

namespace Cache

open Recency

variable {c c' : Cache α} {f : Fingerprint} {order order' : List Fingerprint}

/-- The list holds the stored fingerprints, and those before others were accessed after them. -/
structure Ranks (c : Cache α) (order : List Fingerprint) : Prop where
  mem_iff : ∀ f, f ∈ order ↔ c.stores f = true
  accessed : order.Pairwise fun f g => ∀ d e, c.slot? f = some (.ready d) →
    c.slot? g = some (.ready e) → e.lastAccess < d.lastAccess

/-- What is stored afterwards was stored before, in the same entry. -/
def Retains (c c' : Cache α) : Prop :=
  ∀ f e, c'.slot? f = some (.ready e) → c.slot? f = some (.ready e)

theorem Retains.refl (c : Cache α) : Retains c c :=
  fun _ _ h => h

theorem Retains.trans {d : Cache α} (h : Retains c c') (h' : Retains c' d) : Retains c d :=
  fun f e he => h f e (h' f e he)

theorem retains_dropSlot (h : c.Sorted) (f : Fingerprint) : Retains c (c.dropSlot f) :=
  fun g _ he => ((slot?_dropSlot_eq_some_iff h f g _).mp he).2

theorem stores_dropSlot (h : c.Sorted) (f g : Fingerprint) :
    (c.dropSlot f).stores g = true ↔ g ≠ f ∧ c.stores g = true := by
  simp only [stores_iff, slot?_dropSlot_eq_some_iff h, exists_and_left]

theorem stores_setSlot_ne {g : Fingerprint} (h : g ≠ f) (s : Slot α) :
    (c.setSlot f s).stores g = c.stores g := by
  unfold stores
  rw [slot?_setSlot_ne h]

theorem Ranks.sublist (h : c.Ranks order) (hs : order'.Sublist order) (hr : Retains c c')
    (hm : ∀ g, g ∈ order' ↔ c'.stores g = true) : c'.Ranks order' where
  mem_iff := hm
  accessed := (h.accessed.sublist hs).imp fun hlt d e hd he => hlt d e (hr _ d hd) (hr _ e he)

theorem retains_lead (c : Cache α) (f : Fingerprint) : Retains c (c.lead f).2 := by
  intro g e he
  by_cases hg : g = f
  · subst hg
    cases (slot?_lead_self c g).symm.trans he
  · exact (slot?_lead_ne c hg).symm.trans he

theorem stores_lead (h : c.stores f = false) (g : Fingerprint) :
    (c.lead f).2.stores g = c.stores g := by
  by_cases hg : g = f
  · subst hg
    rw [h]
    exact stores_of_pending (slot?_lead_self c g)
  · exact stores_setSlot_ne (c := c) hg _

theorem Ranks.nodup (h : c.Ranks order) : order.Nodup := by
  apply List.Pairwise.imp_of_mem ?_ h.accessed
  rintro f _ hf _ hlt rfl
  obtain ⟨e, he⟩ := stores_iff.mp ((h.mem_iff f).mp hf)
  exact Nat.lt_irrefl _ (hlt e e he he)

theorem Ranks.front (h : c.Ranks order) {e : Entry α}
    (hlast : ∀ g d, c.slot? g = some (.ready d) → d.lastAccess < e.lastAccess) :
    (c.setSlot f (.ready e)).Ranks (toFront f order) where
  mem_iff g := by
    by_cases hg : g = f
    · subst hg
      simp [toFront, stores_of_ready (slot?_setSlot_self _)]
    · rw [stores_setSlot_ne hg, ← h.mem_iff, toFront, List.mem_cons, List.mem_erase_of_ne hg]
      exact or_iff_right hg
  accessed := by
    have hne : ∀ g ∈ order.erase f, g ≠ f := fun g hg => (h.nodup.mem_erase_iff.mp hg).1
    apply List.pairwise_cons.mpr ⟨?_, ?_⟩
    · intro g hg d d' hd hd'
      rw [slot?_setSlot_self] at hd
      rw [slot?_setSlot_ne (hne g hg)] at hd'
      cases hd
      exact hlast g d' hd'
    · apply List.Pairwise.imp_of_mem ?_ (h.accessed.sublist List.erase_sublist)
      intro g g' hg hg' hlt d d' hd hd'
      rw [slot?_setSlot_ne (hne g hg)] at hd
      rw [slot?_setSlot_ne (hne g' hg')] at hd'
      exact hlt d d' hd hd'

/-! ### What is stored, by name -/

theorem mem_entries_iff (h : c.Sorted) {e : Entry α} :
    (f.text, e) ∈ c.entries ↔ c.slot? f = some (.ready e) := by
  rw [slot?_eq_some_iff h]
  constructor
  · exact mem_slots_of_mem_entries
  · intro hm
    exact List.mem_filterMap.mpr ⟨_, hm, rfl⟩

theorem nodup_names (h : c.Sorted) : (c.entries.map (·.1)).Nodup := by
  apply List.pairwise_map.mpr
  apply List.Pairwise.filterMap _ ?_ h
  rintro ⟨name, s⟩ ⟨name', s'⟩ hlt ⟨_, e⟩ he ⟨_, e'⟩ he'
  cases s <;> cases he
  cases s' <;> cases he'
  exact String.ne_of_lt hlt

/-- The names under which artifacts are stored are those of the list, in another order. -/
theorem Ranks.perm (h : c.Ranks order) (hsorted : c.Sorted) :
    (c.entries.map (·.1)).Perm (order.map (·.text)) := by
  have hnodup : (order.map (·.text)).Nodup :=
    List.pairwise_map.mpr (h.nodup.imp fun hne => Fingerprint.text_ne hne)
  apply (List.perm_ext_iff_of_nodup (nodup_names hsorted) hnodup).mpr
  intro name
  have hname : name ∈ c.entries.map (·.1) ↔ c.stores ⟨name⟩ = true := by
    rw [stores_iff]
    constructor
    · intro hm
      obtain ⟨⟨_, e⟩, he, rfl⟩ := List.mem_map.mp hm
      exact ⟨e, (mem_entries_iff hsorted).mp he⟩
    · rintro ⟨e, he⟩
      exact List.mem_map.mpr ⟨_, (mem_entries_iff hsorted).mpr he, rfl⟩
  rw [hname, ← h.mem_iff]
  constructor
  · exact List.mem_map_of_mem
  · intro hm
    obtain ⟨f, hf, rfl⟩ := List.mem_map.mp hm
    exact hf

theorem Ranks.len (h : c.Ranks order) (hsorted : c.Sorted) : c.len = order.length := by
  have hl := (h.perm hsorted).length_eq
  rwa [List.length_map, List.length_map] at hl

/-! ### The entry that is evicted -/

theorem oldest?_le {entries : List (String × Entry α)} {x : String × Entry α}
    (h : oldest? entries = some x) : ∀ y ∈ entries, x.2.lastAccess ≤ y.2.lastAccess := by
  induction entries generalizing x with
  | nil => cases h
  | cons first rest ih =>
    rw [oldest?] at h
    cases hrest : oldest? rest with
    | none =>
      have hnil : rest = [] := by
        cases rest with
        | nil => rfl
        | cons y ys =>
          rw [oldest?] at hrest
          split at hrest
          · split at hrest <;> cases hrest
          · cases hrest
      rw [hrest] at h
      cases h
      subst hnil
      simp
    | some z =>
      have hz := ih hrest
      rw [hrest] at h
      dsimp only at h
      rw [List.forall_mem_cons]
      split at h
      · next hlt =>
        cases h
        exact ⟨Nat.le_of_lt hlt, hz⟩
      · next hge =>
        cases h
        exact ⟨Nat.le_refl _, fun y hy => Nat.le_trans (Nat.not_lt.mp hge) (hz y hy)⟩

theorem oldest?_isSome {entries : List (String × Entry α)} (h : entries ≠ []) :
    ∃ x, oldest? entries = some x := by
  cases entries with
  | nil => exact absurd rfl h
  | cons first rest =>
    rw [oldest?]
    split
    · split <;> exact ⟨_, rfl⟩
    · exact ⟨_, rfl⟩

/-- The oldest entry is the last of the list. -/
theorem Ranks.oldest (h : c.Ranks (order ++ [f])) (hsorted : c.Sorted) :
    ∃ e, oldest? c.entries = some (f.text, e) := by
  obtain ⟨e, he⟩ := stores_iff.mp ((h.mem_iff f).mp (by simp))
  have hf := (mem_entries_iff hsorted).mpr he
  obtain ⟨⟨name, d⟩, hx⟩ := oldest?_isSome (List.ne_nil_of_mem hf)
  have hd := (mem_entries_iff (f := ⟨name⟩) hsorted).mp (oldest?_mem hx)
  have hle := oldest?_le hx _ hf
  have hm := (h.mem_iff ⟨name⟩).mpr (stores_of_ready hd)
  rcases List.mem_append.mp hm with hm | hm
  · -- what stands before the last was accessed after it
    have hlt := (List.pairwise_append.mp h.accessed).2.2 _ hm f (by simp) d e hd he
    exact absurd hlt (Nat.not_lt.mpr hle)
  · cases List.mem_singleton.mp hm
    exact ⟨d, hx⟩

theorem retains_evictOldest (h : c.Sorted) : Retains c c.evictOldest := by
  rcases evictOldest_eq h with he | ⟨f, e, _, _, he⟩
  · rw [he]
    exact .refl c
  · rw [he]
    exact retains_dropSlot h f

theorem Ranks.evictOldest (h : c.Ranks order) (hsorted : c.Sorted) :
    c.evictOldest.Ranks order.dropLast := by
  apply h.sublist (List.dropLast_sublist order) (retains_evictOldest hsorted)
  intro g
  cases order using List.reverseRecOn with
  | nil =>
    have hnone : c.entries = [] := List.eq_nil_of_length_eq_zero (h.len hsorted)
    have he : c.evictOldest = c := by
      unfold Cache.evictOldest
      rw [hnone]
      rfl
    rw [he]
    exact h.mem_iff g
  | append_singleton order f =>
    obtain ⟨e, ho⟩ := h.oldest hsorted
    have he : c.evictOldest = { c.dropSlot f with counts.evictions := c.counts.evictions + 1 } := by
      unfold Cache.evictOldest
      rw [ho]
      rfl
    have hnot : f ∉ order := fun hf =>
      (List.nodup_append.mp h.nodup).2.2 f hf f (List.mem_singleton_self f) rfl
    rw [he, List.dropLast_concat]
    change _ ↔ (c.dropSlot f).stores g = true
    rw [stores_dropSlot hsorted, ← h.mem_iff, List.mem_append, List.mem_singleton]
    constructor
    · intro hg
      refine ⟨?_, .inl hg⟩
      rintro rfl
      exact hnot hg
    · rintro ⟨hne, hg⟩
      exact hg.resolve_right hne

theorem retains_evict (h : c.Sorted) (n : Nat) : Retains c (evict n c) := by
  induction n generalizing c with
  | zero => exact .refl c
  | succ n ih => exact (retains_evictOldest h).trans (ih (sheds_evictOldest h).sorted)

theorem Ranks.evict (h : c.Ranks order) (hsorted : c.Sorted) (n : Nat) :
    (Cache.evict n c).Ranks (order.take (order.length - n)) := by
  induction n generalizing c order with
  | zero => simpa [Cache.evict] using h
  | succ n ih =>
    have hnext := ih (h.evictOldest hsorted) (sheds_evictOldest hsorted).sorted
    rw [List.length_dropLast, List.dropLast_eq_take, List.take_take] at hnext
    have hmin : min (order.length - 1 - n) (order.length - 1) = order.length - (n + 1) := by omega
    rwa [hmin] at hnext

theorem retains_fitCapacity (h : c.Sorted) : Retains c c.fitCapacity := by
  unfold Cache.fitCapacity
  split
  · exact retains_evict h _
  · exact .refl c

theorem Ranks.fitCapacity (h : c.Ranks order) (hsorted : c.Sorted) {most : Nat}
    (hmost : c.maxEntries = some most) : c.fitCapacity.Ranks (order.take most) := by
  have hevict := h.evict hsorted (c.len - most)
  have htake : order.take (order.length - (order.length - most)) = order.take most := by
    rw [List.take_eq_take_iff]
    omega
  rw [h.len hsorted, htake] at hevict
  unfold Cache.fitCapacity
  rw [hmost]
  dsimp only
  rwa [h.len hsorted]

end Cache

namespace Traffic

open Cache Recency

variable {t t' : Traffic α} {steps : List (Step α)} {s : Step α} {r : Recency} {most : Nat}

/-- The list beside the cache, after these steps. -/
structure Follows (most : Nat) (steps : List (Step α)) (t : Traffic α) (r : Recency) : Prop where
  requested : r.requested = t.requests.map (·.fingerprint)
  ranks : t.cache.Ranks r.order
  maxEntries : t.cache.maxEntries = some most
  ttl : t.cache.ttl = none
  lasting : ∀ f e, t.cache.slot? f = some (.ready e) → e.expiry = none
  past : ∀ f e, t.cache.slot? f = some (.ready e) → e.lastAccess ∈ steps.filterMap Step.reading?
  evictions : t.cache.counts.evictions = r.dropped
  within : r.order.length ≤ most

theorem follows_start (most : Nat) :
    Follows most [] (start (some most) none : Traffic α) .empty where
  requested := rfl
  ranks := by
    refine ⟨?_, List.Pairwise.nil⟩
    intro f
    simp [Recency.empty, stores, start, Cache.empty, slot?, Dictionary.get?]
  maxEntries := rfl
  ttl := rfl
  lasting := by
    rintro f e ⟨⟩
  past := by
    rintro f e ⟨⟩
  evictions := rfl
  within := Nat.zero_le _

namespace Follows

theorem not_expired (h : Follows most steps t r) {f : Fingerprint} {e : Entry α}
    (he : t.cache.slot? f = some (.ready e)) (now : Nat) : e.isExpired now = false := by
  unfold Entry.isExpired
  rw [h.lasting f e he]

theorem not_mem (h : Follows most steps t r) {f : Fingerprint}
    (hf : t.cache.stores f = false) : f ∉ r.order := by
  rw [h.ranks.mem_iff, hf]
  exact Bool.false_ne_true

/-- The clock has gone on since the last access. -/
theorem accessed_before (h : Follows most steps t r)
    (hclock : ((steps ++ [s]).filterMap Step.reading?).Pairwise (· < ·)) {now : Nat}
    (hs : s.reading? = some now) {f : Fingerprint} {e : Entry α}
    (he : t.cache.slot? f = some (.ready e)) : e.lastAccess < now := by
  rw [List.filterMap_append] at hclock
  apply (List.pairwise_append.mp hclock).2.2 _ (h.past f e he)
  simp [hs]

theorem reading_mem {e : Entry α} (h : e.lastAccess ∈ steps.filterMap Step.reading?)
    (s : Step α) : e.lastAccess ∈ (steps ++ [s]).filterMap Step.reading? := by
  rw [List.filterMap_append]
  exact List.mem_append_left _ h

/-- A step in which no entry changes, though some may go. -/
theorem retain (h : Follows most steps t r) (s : Step α) {r' : Recency}
    (hr : Retains t.cache t'.cache) (hs : r'.order.Sublist r.order)
    (hrequested : r'.requested = t'.requests.map (·.fingerprint))
    (hm : ∀ g, g ∈ r'.order ↔ t'.cache.stores g = true)
    (hlimits : t'.cache.maxEntries = t.cache.maxEntries ∧ t'.cache.ttl = t.cache.ttl)
    (hcounts : t'.cache.counts.evictions = t.cache.counts.evictions)
    (hdropped : r'.dropped = r.dropped) : Follows most (steps ++ [s]) t' r' where
  requested := hrequested
  ranks := h.ranks.sublist hs hr hm
  maxEntries := hlimits.1.trans h.maxEntries
  ttl := hlimits.2.trans h.ttl
  lasting f e he := h.lasting f e (hr f e he)
  past f e he := reading_mem (h.past f e (hr f e he)) s
  evictions := (hcounts.trans h.evictions).trans hdropped.symm
  within := Nat.le_trans hs.length_le h.within

/-- The entry that is put in a slot is the latest. -/
theorem front (h : Follows most steps t r)
    (hclock : ((steps ++ [s]).filterMap Step.reading?).Pairwise (· < ·)) {now : Nat}
    (hs : s.reading? = some now) {f : Fingerprint} {e : Entry α} (he : e.lastAccess = now)
    (hexpiry : e.expiry = none) :
    (t.cache.setSlot f (.ready e)).Ranks (toFront f r.order) ∧
      ∀ g d, (t.cache.setSlot f (.ready e)).slot? g = some (.ready d) →
        d.expiry = none ∧ d.lastAccess ∈ (steps ++ [s]).filterMap Step.reading? := by
  constructor
  · apply h.ranks.front
    intro g d hd
    rw [he]
    exact h.accessed_before hclock hs hd
  · intro g d hd
    by_cases hg : g = f
    · subst hg
      rw [slot?_setSlot_self] at hd
      cases hd
      refine ⟨hexpiry, List.mem_filterMap.mpr ⟨s, by simp, ?_⟩⟩
      rw [he, hs]
    · rw [slot?_setSlot_ne hg] at hd
      exact ⟨h.lasting g d hd, reading_mem (h.past g d hd) s⟩

theorem request (h : Follows most steps t r) {f : Fingerprint} {now : Nat}
    (hclock : ((steps ++ [Step.request f now]).filterMap Step.reading?).Pairwise (· < ·))
    (hs : t.step? (.request f now) = some t') :
    Follows most (steps ++ [.request f now]) t' (r.step most (.request f now : Step α)) := by
  obtain ⟨found, cache, hl, rfl⟩ := found_of_step? hs
  have hrequested : r.requested ++ [f] =
      (t.requests ++ [(⟨f, .ofLookup found⟩ : Request α)]).map (·.fingerprint) := by
    rw [h.requested, List.map_append]
    rfl
  have hmissed (hf : t.cache.stores f = false) :
      r.step most (.request f now : Step α) = ⟨r.requested ++ [f], r.order, r.dropped⟩ := by
    simp [Recency.step, h.not_mem hf]
  have hlead (hf : t.cache.stores f = false) : Follows most (steps ++ [.request f now])
      ⟨(t.cache.lead f).2, t.requests ++ [⟨f, .ofLookup found⟩]⟩
      (r.step most (.request f now : Step α)) := by
    rw [hmissed hf]
    refine h.retain _ (retains_lead t.cache f) (.refl _) hrequested ?_ ⟨rfl, rfl⟩ rfl rfl
    intro g
    rw [h.ranks.mem_iff, ← stores_lead hf]
  cases hl with
  | @live e stored live =>
    have hm := (h.ranks.mem_iff f).mpr (stores_of_ready stored)
    obtain ⟨hranks, hentries⟩ :=
      h.front hclock rfl (f := f) (e := e.touch now) rfl (h.lasting f e stored)
    have hstep : r.step most (.request f now : Step α) =
        ⟨r.requested ++ [f], toFront f r.order, r.dropped⟩ := by
      simp [Recency.step, hm]
    rw [hstep]
    refine ⟨hrequested, ⟨hranks.mem_iff, hranks.accessed⟩, h.maxEntries, h.ttl,
      fun g d hd => (hentries g d hd).1, fun g d hd => (hentries g d hd).2, h.evictions, ?_⟩
    rw [length_toFront_of_mem hm]
    exact h.within
  | inFlight pending =>
    rw [hmissed (stores_of_pending pending)]
    exact h.retain _ (.refl _) (.refl _) hrequested h.ranks.mem_iff ⟨rfl, rfl⟩ rfl rfl
  | expired stored expired =>
    rw [h.not_expired stored now] at expired
    cases expired
  | absent free => exact hlead (stores_of_none free)

theorem fingerprints_update {rs : List (Request α)} {i : Nat} {x : Request α}
    (h : rs[i]? = some x) (p : Progress α) :
    (rs.set i ⟨x.fingerprint, p⟩).map (·.fingerprint) = rs.map (·.fingerprint) := by
  apply List.ext_getElem?
  intro j
  grind

theorem settle_ok (h : Follows most steps t r) (hsound : t.Sound) {i n now : Nat} {f : Fingerprint}
    (hi : t.requests[i]? = some ⟨f, .compiling n⟩) (a : α)
    (hclock : ((steps ++ [Step.move i (.settle now (.ok a))]).filterMap Step.reading?).Pairwise
      (· < ·)) :
    Follows most (steps ++ [.move i (.settle now (.ok a))])
      ⟨t.cache.settle now f n (.ok a), t.requests.set i ⟨f, .settled n (.ok a)⟩⟩
      (r.step most (.move i (.settle now (.ok a)))) := by
  have hf := hsound.slot_of_compiling hi
  have hnot := h.not_mem (stores_of_pending hf)
  have hsorted := hsound.sorted.setSlot f (.ready (.make now t.cache.ttl ⟨n, a⟩))
  have hexpiry : (Entry.make now t.cache.ttl ⟨n, a⟩).expiry = none := by
    rw [h.ttl]
    rfl
  obtain ⟨hranks, hentries⟩ := h.front hclock rfl (f := f)
    (e := .make now t.cache.ttl ⟨n, a⟩) rfl hexpiry
  have hfit : (t.cache.settle now f n (.ok a)).Ranks ((toFront f r.order).take most) :=
    hranks.fitCapacity hsorted h.maxEntries
  have honly := onlyEvicts_fitCapacity
    (t.cache.setSlot f (.ready (.make now t.cache.ttl ⟨n, a⟩)))
  have hretains := retains_fitCapacity hsorted
  have hfingerprint : r.requested[i]? = some f := by
    rw [h.requested, List.getElem?_map, hi]
    rfl
  have hstep : r.step most (.move i (.settle now (.ok a))) =
      trim ⟨r.requested, toFront f r.order, r.dropped⟩ most := by
    simp [Recency.step, hfingerprint]
  rw [hstep]
  refine ⟨?_, hfit, honly.maxEntries.trans h.maxEntries, honly.ttl.trans h.ttl,
    fun g d hd => (hentries g d (hretains g d hd)).1,
    fun g d hd => (hentries g d (hretains g d hd)).2, ?_, List.length_take_le _ _⟩
  · rw [h.requested]
    exact (fingerprints_update hi _).symm
  · -- what is not kept of one artifact more was evicted
    have hkept := kept_settle_ok hsound.sorted hf now a
    have hlen := hfit.len (hsound.sorted.settle now f n (.ok a))
    have hbefore := h.ranks.len hsound.sorted
    have hevictions := h.evictions
    simp only [kept, trim, List.length_take, length_toFront_of_not_mem hnot] at hkept hlen ⊢
    omega

/-- A compilation that ends without an artifact leaves the list alone. -/
theorem dropSlot (h : Follows most steps t r) (hsound : t.Sound) {i n : Nat} {f : Fingerprint}
    (hi : t.requests[i]? = some ⟨f, .compiling n⟩) (s : Step α) (cache : Cache α)
    (hcache : cache.slots = (t.cache.dropSlot f).slots)
    (hlimits : cache.maxEntries = t.cache.maxEntries ∧ cache.ttl = t.cache.ttl)
    (hcounts : cache.counts.evictions = t.cache.counts.evictions) (p : Progress α) :
    Follows most (steps ++ [s]) ⟨cache, t.requests.set i ⟨f, p⟩⟩ r := by
  have hnone := stores_of_pending (hsound.slot_of_compiling hi)
  have hslot (g) : cache.slot? g = (t.cache.dropSlot f).slot? g := by
    unfold slot?
    rw [hcache]
  refine h.retain s ?_ (.refl _) ?_ ?_ hlimits hcounts rfl
  · intro g e he
    exact retains_dropSlot hsound.sorted f g e ((hslot g).symm.trans he)
  · rw [h.requested]
    exact (fingerprints_update hi p).symm
  · intro g
    have hstores : cache.stores g = (t.cache.dropSlot f).stores g := by
      unfold stores
      rw [hslot]
    change _ ↔ cache.stores g = true
    rw [hstores, stores_dropSlot hsound.sorted, ← h.ranks.mem_iff]
    refine ⟨fun hg => ⟨?_, hg⟩, And.right⟩
    rintro rfl
    exact h.not_mem hnone hg

theorem move (h : Follows most steps t r) (hsound : t.Sound) {i : Nat} {m : Move α}
    (hclock : ((steps ++ [Step.move i m]).filterMap Step.reading?).Pairwise (· < ·))
    (hs : t.step? (.move i m) = some t') :
    Follows most (steps ++ [.move i m]) t' (r.step most (.move i m)) := by
  obtain ⟨⟨f, q⟩, cache, p, hr, hm, rfl⟩ := move_of_step? hs
  have hrequested : r.requested =
      (t.requests.set i (⟨f, p⟩ : Request α)).map (·.fingerprint) := by
    rw [h.requested]
    exact (fingerprints_update hr p).symm
  cases hm with
  | settle n now outcome =>
    cases outcome with
    | ok a => exact h.settle_ok hsound hr a hclock
    | error e =>
      exact h.dropSlot hsound hr _ (t.cache.settle now f n (.error e)) rfl ⟨rfl, rfl⟩ rfl _
  | unwind n => exact h.dropSlot hsound hr _ (t.cache.dropSlot f) rfl ⟨rfl, rfl⟩ rfl _
  | publish | close | receive | cancel =>
    exact h.retain _ (.refl _) (.refl _) hrequested h.ranks.mem_iff ⟨rfl, rfl⟩ rfl rfl

theorem invalidate (h : Follows most steps t r) (hsorted : t.cache.Sorted) (f : Fingerprint) :
    Follows most (steps ++ [.invalidate f]) { t with cache := (t.cache.invalidate f).2 }
      (r.step most (.invalidate f : Step α)) := by
  rw [snd_invalidate]
  split
  · refine h.retain _ (retains_dropSlot hsorted f) List.erase_sublist h.requested ?_ ⟨rfl, rfl⟩ rfl
      rfl
    intro g
    change g ∈ r.order.erase f ↔ (t.cache.dropSlot f).stores g = true
    rw [stores_dropSlot hsorted, h.ranks.nodup.mem_erase_iff, h.ranks.mem_iff]
  · next hf =>
    have herase : r.order.erase f = r.order :=
      List.erase_of_not_mem (h.not_mem (Bool.eq_false_iff.mpr hf))
    refine h.retain _ (.refl _) List.erase_sublist h.requested ?_ ⟨rfl, rfl⟩ rfl rfl
    intro g
    change g ∈ r.order.erase f ↔ _
    rw [herase, h.ranks.mem_iff]

theorem clear (h : Follows most steps t r) (hsorted : t.cache.Sorted) :
    Follows most (steps ++ [.clear]) { t with cache := t.cache.clear }
      (r.step most (.clear : Step α)) := by
  have hnone (g e) : t.cache.clear.slot? g ≠ some (.ready e) := by
    intro he
    have hm := (slot?_eq_some_iff (sheds_clear hsorted).sorted _).mp he
    have hp := (List.mem_filter.mp hm).2
    simp [Slot.isReady] at hp
  refine h.retain _ (fun g e he => absurd he (hnone g e)) (List.nil_sublist _) h.requested ?_
    ⟨rfl, rfl⟩ rfl rfl
  intro g
  rw [stores_iff]
  constructor
  · intro hg
    cases hg
  · rintro ⟨e, he⟩
    exact absurd he (hnone g e)

theorem purge (h : Follows most steps t r) (hsorted : t.cache.Sorted) (now : Nat) :
    Follows most (steps ++ [.purge now]) { t with cache := (t.cache.purge now).2 }
      (r.step most (.purge now : Step α)) := by
  have hkept : t.cache.slots.filter (fun x => staysAt now x.2) = t.cache.slots := by
    apply List.filter_eq_self.mpr
    rintro ⟨name, s⟩ hm
    cases s with
    | pending n => rfl
    | ready e =>
      have he := (slot?_eq_some_iff (f := ⟨name⟩) hsorted _).mpr hm
      simp [staysAt, h.not_expired he now]
  have hpurge : (t.cache.purge now).2 = t.cache := by
    unfold Cache.purge
    rw [hkept]
  rw [hpurge]
  exact h.retain _ (.refl _) (.refl _) h.requested h.ranks.mem_iff ⟨rfl, rfl⟩ rfl rfl

theorem step (h : Follows most steps t r) (hsound : t.Sound)
    (hclock : ((steps ++ [s]).filterMap Step.reading?).Pairwise (· < ·))
    (hs : t.step? s = some t') : Follows most (steps ++ [s]) t' (r.step most s) := by
  cases s with
  | request f now => exact h.request hclock hs
  | move i m => exact h.move hsound hclock hs
  | invalidate f =>
    cases hs
    exact h.invalidate hsound.sorted f
  | clear =>
    cases hs
    exact h.clear hsound.sorted
  | purge now =>
    cases hs
    exact h.purge hsound.sorted now

end Follows

theorem follows_of_run? (hclock : (steps.filterMap Step.reading?).Pairwise (· < ·))
    (h : (start (some most) none).run? steps = some t) :
    Follows most steps t (Recency.run most steps) := by
  induction steps using List.reverseRecOn generalizing t with
  | nil =>
    cases h
    exact follows_start most
  | append_singleton steps s ih =>
    obtain ⟨u, hu, hs⟩ := run?_concat.mp h
    have hbefore : (steps.filterMap Step.reading?).Pairwise (· < ·) := by
      rw [List.filterMap_append] at hclock
      exact (List.pairwise_append.mp hclock).1
    rw [run_concat]
    exact (ih hbefore hu).step (sound_of_run? hu) hclock hs

/-- A cache with a limit and without a time to live: however the steps of requests are mixed, if the
clock goes on from reading to reading, then at any time what is stored is what stands in the list,
and each fingerprint that was dropped from the list is an eviction. Nothing else is evicted: a
request that compiles still has its slot. -/
theorem stores_recent (hclock : (steps.filterMap Step.reading?).Pairwise (· < ·))
    (h : (start (some most) none).run? steps = some t) :
    t.cache.len ≤ most ∧
      (t.cache.entries.map (·.1)).Perm ((Recency.run most steps).order.map (·.text)) ∧
      t.cache.statistics.evictions = (Recency.run most steps).dropped ∧
      (∀ f now, t.cache.contains now f = decide (f ∈ (Recency.run most steps).order) ∧
        (t.cache.inspect now f).isSome = decide (f ∈ (Recency.run most steps).order)) ∧
      ∀ i f n, t.Compiles i f n → t.cache.slot? f = some (.pending n) := by
  have hfollows := follows_of_run? hclock h
  have hsound := sound_of_run? h
  refine ⟨?_, hfollows.ranks.perm hsound.sorted, hfollows.evictions, ?_, ?_⟩
  · rw [hfollows.ranks.len hsound.sorted]
    exact hfollows.within
  · intro f now
    have hm := hfollows.ranks.mem_iff f
    have hlive := fun e he => hfollows.not_expired (f := f) (e := e) he now
    unfold contains inspect entryOf?
    unfold stores at hm
    rcases hslot : t.cache.slot? f with _ | e | n
    · simp_all
    · simp_all [Slot.isReady]
    · simp_all [Slot.isReady]
  · intro i f n hi
    exact hsound.slot_of_compiling hi

/-- Two artifacts have room. The one that was used less recently goes when a third is stored, and a
fourth compilation is in flight. -/
def rotation : List (Step Nat) :=
  [.request ⟨"a"⟩ 0, .move 0 (.settle 1 (.ok 7)), .request ⟨"b"⟩ 2, .request ⟨"c"⟩ 3,
    .move 1 (.settle 4 (.ok 8)), .request ⟨"a"⟩ 5, .request ⟨"c"⟩ 6, .move 2 (.settle 7 (.ok 9)),
    .request ⟨"d"⟩ 8]

def rotated : Traffic Nat where
  cache := ⟨[("a", .ready ⟨⟨0, 7⟩, 1, none, 5⟩), ("c", .ready ⟨⟨2, 9⟩, 7, none, 7⟩),
    ("d", .pending 3)], [.running, .running, .running, .running], some 2, none, ⟨1, 4, 1, 0, 1, 0⟩⟩
  requests := [⟨⟨"a"⟩, .settled 0 (.ok 7)⟩, ⟨⟨"b"⟩, .settled 1 (.ok 8)⟩,
    ⟨⟨"c"⟩, .settled 2 (.ok 9)⟩, ⟨⟨"a"⟩, .hit ⟨0, 7⟩⟩, ⟨⟨"c"⟩, .waiting 2⟩, ⟨⟨"d"⟩, .compiling 3⟩]

theorem stores_recent_rotated :
    (rotation.filterMap Step.reading?).Pairwise (· < ·) ∧
      (start (some 2) none).run? rotation = some rotated ∧
      Recency.run 2 rotation =
        ⟨[⟨"a"⟩, ⟨"b"⟩, ⟨"c"⟩, ⟨"a"⟩, ⟨"c"⟩, ⟨"d"⟩], [⟨"c"⟩, ⟨"a"⟩], 1⟩ ∧
      rotated.cache.len ≤ 2 ∧
      (rotated.cache.entries.map (·.1)).Perm ((Recency.run 2 rotation).order.map (·.text)) ∧
      rotated.cache.statistics.evictions = (Recency.run 2 rotation).dropped ∧
      rotated.cache.slot? ⟨"d"⟩ = some (.pending 3) := by
  have hclock : (rotation.filterMap Step.reading?).Pairwise (· < ·) := by decide
  have hrun : (start (some 2) none).run? rotation = some rotated := by rfl
  obtain ⟨hlen, hstored, hevictions, _, hpending⟩ := stores_recent hclock hrun
  exact ⟨hclock, hrun, rfl, hlen, hstored, hevictions, hpending 5 ⟨"d"⟩ 3 rfl⟩

end Traffic

end EmbeddedLang
