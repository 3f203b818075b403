import EmbeddedLang.Cache.Traffic
import EmbeddedLang.Proofs.Dictionary

/-!
What the operations of a cache do to its slots.

Most of them leave every pending slot as it is and store nothing new. The others change one slot.

Each operation changes the number of artifacts that are stored, and the counts, in a way of its own.
What is said here of a slot before and after is all that the balance of the counts needs.
-/

namespace EmbeddedLang

theorem Fingerprint.text_ne {f g : Fingerprint} (h : g ≠ f) : g.text ≠ f.text := by
  intro he
  cases f
  cases g
  exact h (congrArg Fingerprint.mk he)

namespace Cache

variable {α : Type} {c c' : Cache α} {f g : Fingerprint}

def Sorted (c : Cache α) : Prop :=
  Dictionary.Sorted c.slots

@[simp] theorem slot?_setSlot_self (s : Slot α) : (c.setSlot f s).slot? f = some s :=
  Dictionary.get?_put_self _ _ _

theorem slot?_setSlot_ne (h : g ≠ f) (s : Slot α) : (c.setSlot f s).slot? g = c.slot? g :=
  Dictionary.get?_put_ne (Fingerprint.text_ne h) _ _

theorem Sorted.setSlot (h : c.Sorted) (f : Fingerprint) (s : Slot α) : (c.setSlot f s).Sorted :=
  Dictionary.Sorted.put h _ _

theorem slot?_dropSlot_self (h : c.Sorted) (f : Fingerprint) : (c.dropSlot f).slot? f = none :=
  Dictionary.get?_erase_self h _

theorem slot?_dropSlot_ne (h : c.Sorted) (hne : g ≠ f) : (c.dropSlot f).slot? g = c.slot? g :=
  Dictionary.get?_erase_ne h (Fingerprint.text_ne hne)

theorem Sorted.dropSlot (h : c.Sorted) (f : Fingerprint) : (c.dropSlot f).Sorted :=
  Dictionary.Sorted.filter h _

theorem slot?_eq_some_iff (h : c.Sorted) (s : Slot α) :
    c.slot? f = some s ↔ (f.text, s) ∈ c.slots :=
  Dictionary.get?_eq_some_iff h _ _

/-- At most some artifacts are lost: what is pending stays so, and nothing is stored anew. -/
structure Sheds (c c' : Cache α) : Prop where
  sorted : c'.Sorted
  compilations : c'.compilations = c.compilations
  pending_iff : ∀ f n, c'.slot? f = some (.pending n) ↔ c.slot? f = some (.pending n)
  stored : ∀ f e', c'.slot? f = some (.ready e') →
    ∃ e, c.slot? f = some (.ready e) ∧ e.content = e'.content

theorem Sheds.refl (h : c.Sorted) : Sheds c c where
  sorted := h
  compilations := rfl
  pending_iff _ _ := Iff.rfl
  stored _ e h := ⟨e, h, rfl⟩

theorem Sheds.trans {d : Cache α} (h : Sheds c c') (h' : Sheds c' d) : Sheds c d where
  sorted := h'.sorted
  compilations := h'.compilations.trans h.compilations
  pending_iff f n := (h'.pending_iff f n).trans (h.pending_iff f n)
  stored f e he := by
    obtain ⟨e', he', hc'⟩ := h'.stored f e he
    obtain ⟨e'', he'', hc''⟩ := h.stored f e' he'
    exact ⟨e'', he'', hc''.trans hc'⟩

theorem Sheds.filter (h : c.Sorted) (p : String × Slot α → Bool)
    (hp : ∀ x ∈ c.slots, p x = false → x.2.isReady = true) (hs : c'.slots = c.slots.filter p)
    (hc : c'.compilations = c.compilations) : Sheds c c' := by
  have hsorted : c'.Sorted := by
    unfold Sorted
    rw [hs]
    exact Dictionary.Sorted.filter h p
  have hslot (f s) : c'.slot? f = some s ↔ c.slot? f = some s ∧ p (f.text, s) = true := by
    rw [slot?_eq_some_iff hsorted, slot?_eq_some_iff h, hs, List.mem_filter]
  refine ⟨hsorted, hc, ?_, ?_⟩
  · intro f n
    rw [hslot]
    refine and_iff_left_of_imp fun hn => ?_
    cases hpn : p (f.text, .pending n) with
    | true => rfl
    | false =>
      have := hp _ ((slot?_eq_some_iff h _).mp hn) hpn
      simp [Slot.isReady] at this
  · intro f e he
    exact ⟨e, ((hslot f _).mp he).1, rfl⟩

/-! ### Dropping artifacts -/

theorem Sheds.erase (h : c.Sorted) {name : String} {e : Entry α} (hm : (name, .ready e) ∈ c.slots)
    (hs : c'.slots = Dictionary.erase name c.slots) (hc : c'.compilations = c.compilations) :
    Sheds c c' := by
  apply Sheds.filter h _ _ hs hc
  rintro ⟨other, s⟩ hx hp
  have he : other = name := by simpa using hp
  subst he
  have hse : some s = some (.ready e) := by
    rw [← (Dictionary.get?_eq_some_iff h other s).mpr hx,
      ← (Dictionary.get?_eq_some_iff h other (.ready e)).mpr hm]
  cases hse
  rfl

theorem mem_slots_of_mem_entries {name : String} {e : Entry α} (h : (name, e) ∈ c.entries) :
    (name, .ready e) ∈ c.slots := by
  obtain ⟨⟨other, s⟩, hm, he⟩ := List.mem_filterMap.mp h
  cases s with
  | pending n => cases he
  | ready e' =>
    cases he
    exact hm

theorem oldest?_mem {entries : List (String × Entry α)} {x : String × Entry α}
    (h : oldest? entries = some x) : x ∈ entries := by
  induction entries generalizing x with
  | nil => cases h
  | cons y rest ih =>
    rw [oldest?] at h
    split at h
    · next z hz =>
      split at h
      · cases h
        exact List.mem_cons_of_mem _ (ih hz)
      · cases h
        exact List.mem_cons_self
    · cases h
      exact List.mem_cons_self

theorem sheds_evictOldest (h : c.Sorted) : Sheds c c.evictOldest := by
  unfold evictOldest
  split
  · next name e ho =>
    exact Sheds.erase h (mem_slots_of_mem_entries (oldest?_mem ho)) rfl rfl
  · exact .refl h

theorem sheds_evict (h : c.Sorted) (n : Nat) : Sheds c (evict n c) := by
  induction n generalizing c with
  | zero => exact .refl h
  | succ n ih =>
    have hfirst := sheds_evictOldest h
    exact hfirst.trans (ih hfirst.sorted)

theorem sheds_fitCapacity (h : c.Sorted) : Sheds c c.fitCapacity := by
  unfold fitCapacity
  split
  · exact sheds_evict h _
  · exact .refl h

theorem sheds_invalidate (h : c.Sorted) (f : Fingerprint) : Sheds c (c.invalidate f).2 := by
  unfold invalidate entryOf?
  split
  · next e he =>
    split at he
    · next e' hf =>
      exact Sheds.erase h ((slot?_eq_some_iff h _).mp hf) rfl rfl
    · cases he
  · exact .refl h

theorem sheds_clear (h : c.Sorted) : Sheds c c.clear := by
  refine Sheds.filter h (fun x => !x.2.isReady) ?_ rfl rfl
  intro x _ hp
  simpa using hp

theorem sheds_purge (h : c.Sorted) (now : Nat) : Sheds c (c.purge now).2 := by
  refine Sheds.filter h (fun x => staysAt now x.2) ?_ rfl rfl
  rintro ⟨name, s⟩ _ hp
  cases s with
  | ready e => rfl
  | pending n => cases hp

/-! ### Requests -/

/-- What a look-up finds: an artifact, a compilation in progress, or neither. -/
inductive Looked (c : Cache α) (now : Nat) (f : Fingerprint) : Lookup α → Cache α → Prop
  | hit {e : Entry α} {c' : Cache α} (stored : c.slot? f = some (.ready e)) (sheds : Sheds c c') :
    Looked c now f (.hit e.content) c'
  | wait {n : Nat} {c' : Cache α} (pending : c.slot? f = some (.pending n)) (sheds : Sheds c c') :
    Looked c now f (.wait n) c'
  | lead (free : ∀ n, c.slot? f ≠ some (.pending n)) :
    Looked c now f (.lead c.compilations.length) (c.lead f).2

theorem sheds_touch (h : c.Sorted) {e : Entry α} (he : c.slot? f = some (.ready e)) (now : Nat)
    (hs : c'.slots = (c.setSlot f (.ready (e.touch now))).slots)
    (hc : c'.compilations = c.compilations) : Sheds c c' := by
  have hslot (g) : c'.slot? g = (c.setSlot f (.ready (e.touch now))).slot? g := by
    unfold slot?
    rw [hs]
  refine ⟨?_, hc, ?_, ?_⟩
  · unfold Sorted
    rw [hs]
    exact h.setSlot _ _
  · intro g n
    by_cases hg : g = f
    · subst hg
      simp [hslot, he]
    · rw [hslot, slot?_setSlot_ne hg]
  · intro g e' he'
    rw [hslot] at he'
    by_cases hg : g = f
    · subst hg
      rw [slot?_setSlot_self] at he'
      cases he'
      exact ⟨e, he, rfl⟩
    · rw [slot?_setSlot_ne hg] at he'
      exact ⟨e', he', rfl⟩

theorem lookup_looked (h : c.Sorted) (now : Nat) (f : Fingerprint) :
    Looked c now f (c.lookup now f).1 (c.lookup now f).2 := by
  unfold lookup
  split
  · next e he =>
    split
    · exact .lead fun n hn => by simp [he] at hn
    · exact .hit he (sheds_touch h he now rfl rfl)
  · next n hn => exact .wait hn ⟨h, rfl, fun _ _ => Iff.rfl, fun _ e he => ⟨e, he, rfl⟩⟩
  · next hn => exact .lead fun n hp => by simp [hn] at hp

theorem slot?_lead_self (c : Cache α) (f : Fingerprint) :
    (c.lead f).2.slot? f = some (.pending c.compilations.length) :=
  slot?_setSlot_self _

theorem slot?_lead_ne (c : Cache α) (hne : g ≠ f) : (c.lead f).2.slot? g = c.slot? g :=
  slot?_setSlot_ne (c := c) hne _

theorem sheds_settle_ok (h : c.Sorted) (now : Nat) (f : Fingerprint) (number : Nat) (a : α) :
    Sheds (c.setSlot f (.ready (.make now c.ttl ⟨number, a⟩)))
      (c.settle now f number (.ok a)) :=
  sheds_fitCapacity (h.setSlot _ _)

theorem slot?_dropSlot_eq_some_iff (h : c.Sorted) (f g : Fingerprint) (s : Slot α) :
    (c.dropSlot f).slot? g = some s ↔ g ≠ f ∧ c.slot? g = some s := by
  by_cases hg : g = f
  · simp [hg, slot?_dropSlot_self h]
  · simp [hg, slot?_dropSlot_ne h]

theorem settle_pending_iff (h : c.Sorted) (now : Nat) (f : Fingerprint) (number : Nat)
    (outcome : Except CompileError α) (g : Fingerprint) (n : Nat) :
    (c.settle now f number outcome).slot? g = some (.pending n) ↔
      g ≠ f ∧ c.slot? g = some (.pending n) := by
  cases outcome with
  | ok a =>
    rw [(sheds_settle_ok h now f number a).pending_iff]
    by_cases hg : g = f
    · simp [hg]
    · simp [hg, slot?_setSlot_ne]
  | error e => exact slot?_dropSlot_eq_some_iff h f g _

theorem Sorted.settle (h : c.Sorted) (now : Nat) (f : Fingerprint) (number : Nat)
    (outcome : Except CompileError α) : (c.settle now f number outcome).Sorted := by
  cases outcome with
  | ok a => exact (sheds_settle_ok h now f number a).sorted
  | error e => exact h.dropSlot f

theorem compilations_settle (h : c.Sorted) (now : Nat) (f : Fingerprint) (number : Nat)
    (outcome : Except CompileError α) :
    (c.settle now f number outcome).compilations = c.compilations := by
  cases outcome with
  | ok a => exact (sheds_settle_ok h now f number a).compilations
  | error e => rfl

end Cache

end EmbeddedLang

namespace EmbeddedLang.Cache

/-! ### How many artifacts are stored -/

variable {α : Type} {c : Cache α} {f : Fingerprint}

/-- An artifact is stored for the fingerprint, expired or not. -/
def stores (c : Cache α) (f : Fingerprint) : Bool :=
  (c.slot? f).any Slot.isReady

theorem stores_of_ready {e : Entry α} (h : c.slot? f = some (.ready e)) : c.stores f = true := by
  simp [stores, h, Slot.isReady]

theorem stores_of_pending {n : Nat} (h : c.slot? f = some (.pending n)) : c.stores f = false := by
  simp [stores, h, Slot.isReady]

theorem stores_of_none (h : c.slot? f = none) : c.stores f = false := by
  simp [stores, h]

theorem stores_iff : c.stores f = true ↔ ∃ e, c.slot? f = some (.ready e) := by
  unfold stores
  rcases c.slot? f with _ | e | n <;> simp [Slot.isReady]

theorem len_eq_countP (c : Cache α) : c.len = c.slots.countP fun x => x.2.isReady := by
  unfold len entries
  rw [List.length_filterMap_eq_countP]
  apply List.countP_congr
  rintro ⟨name, s⟩ _
  cases s <;> simp [Slot.isReady]

theorem len_setSlot (h : c.Sorted) (f : Fingerprint) (s : Slot α) :
    (c.setSlot f s).len + (c.stores f).toNat = c.len + s.isReady.toNat := by
  rw [len_eq_countP, len_eq_countP]
  exact Dictionary.countP_put h (fun x => x.2.isReady) f.text s

theorem len_dropSlot (h : c.Sorted) (f : Fingerprint) :
    (c.dropSlot f).len + (c.stores f).toNat = c.len := by
  rw [len_eq_countP, len_eq_countP]
  exact Dictionary.countP_erase h (fun x => x.2.isReady) f.text

/-! ### Dropping artifacts -/

theorem fst_invalidate (c : Cache α) (f : Fingerprint) : (c.invalidate f).1 = c.stores f := by
  unfold invalidate entryOf? stores
  rcases c.slot? f with _ | e | n <;> rfl

theorem snd_invalidate (c : Cache α) (f : Fingerprint) :
    (c.invalidate f).2 = if c.stores f then c.dropSlot f else c := by
  unfold invalidate entryOf? stores
  rcases c.slot? f with _ | e | n <;> rfl

theorem len_invalidate (h : c.Sorted) (f : Fingerprint) :
    (c.invalidate f).2.len + (c.invalidate f).1.toNat = c.len := by
  rw [fst_invalidate, snd_invalidate]
  have hd := len_dropSlot h f
  split
  · exact hd
  · next hs => simp [hs]

theorem counts_invalidate (c : Cache α) (f : Fingerprint) :
    (c.invalidate f).2.counts = c.counts := by
  rw [snd_invalidate]
  split <;> rfl

theorem len_clear (c : Cache α) : c.clear.len = 0 := by
  rw [len_eq_countP]
  apply List.countP_eq_zero.mpr
  intro x hx
  have hp := (List.mem_filter.mp hx).2
  simpa using hp

/-- What is purged was stored. -/
theorem len_purge (c : Cache α) (now : Nat) : (c.purge now).2.len + (c.purge now).1 = c.len := by
  rw [len_eq_countP, len_eq_countP]
  change (c.slots.filter fun x => staysAt now x.2).countP (fun x => x.2.isReady) +
    (c.slots.length - (c.slots.filter fun x => staysAt now x.2).length) = _
  induction c.slots with
  | nil => rfl
  | cons x rest ih =>
    have hle := List.length_filter_le (fun x => staysAt now x.2) rest
    obtain ⟨name, s⟩ := x
    cases hs : staysAt now s with
    | true =>
      simp only [List.filter_cons, hs, ↓reduceIte, List.countP_cons, List.length_cons]
      omega
    | false =>
      cases s with
      | pending n => cases hs
      | ready e =>
        have hr : (Slot.ready e).isReady = true := rfl
        simp only [List.filter_cons, hs, Bool.false_eq_true, ↓reduceIte, List.countP_cons, hr,
          List.length_cons]
        omega

/-! ### Eviction -/

/-- Stored artifacts and evictions together. -/
def kept (c : Cache α) : Nat :=
  c.len + c.counts.evictions

theorem evictOldest_eq (h : c.Sorted) : c.evictOldest = c ∨
    ∃ f e, oldest? c.entries = some (f.text, e) ∧ c.slot? f = some (.ready e) ∧
      c.evictOldest = { c.dropSlot f with counts.evictions := c.counts.evictions + 1 } := by
  unfold evictOldest
  split
  · next name e ho =>
    have hm := mem_slots_of_mem_entries (oldest?_mem ho)
    exact .inr ⟨⟨name⟩, e, ho, (slot?_eq_some_iff h _).mpr hm, rfl⟩
  · exact .inl rfl

theorem kept_evictOldest (h : c.Sorted) : c.evictOldest.kept = c.kept := by
  rcases evictOldest_eq h with he | ⟨f, e, _, hf, he⟩
  · rw [he]
  · have hd := len_dropSlot h f
    rw [stores_of_ready hf, Bool.toNat_true] at hd
    rw [he]
    change (c.dropSlot f).len + (c.counts.evictions + 1) = c.len + c.counts.evictions
    omega

theorem kept_evict (h : c.Sorted) (n : Nat) : (evict n c).kept = c.kept := by
  induction n generalizing c with
  | zero => rfl
  | succ n ih => exact (ih (sheds_evictOldest h).sorted).trans (kept_evictOldest h)

theorem kept_fitCapacity (h : c.Sorted) : c.fitCapacity.kept = c.kept := by
  unfold fitCapacity
  split
  · exact kept_evict h _
  · rfl

/-- Eviction counts nothing but evictions and changes no limit. -/
structure OnlyEvicts (c c' : Cache α) : Prop where
  counts : c'.counts = { c.counts with evictions := c'.counts.evictions }
  maxEntries : c'.maxEntries = c.maxEntries
  ttl : c'.ttl = c.ttl

theorem OnlyEvicts.refl (c : Cache α) : OnlyEvicts c c :=
  ⟨rfl, rfl, rfl⟩

theorem OnlyEvicts.trans {c' d : Cache α} (h : OnlyEvicts c c') (h' : OnlyEvicts c' d) :
    OnlyEvicts c d where
  counts := by
    rw [h'.counts, h.counts]
  maxEntries := h'.maxEntries.trans h.maxEntries
  ttl := h'.ttl.trans h.ttl

theorem onlyEvicts_evictOldest (c : Cache α) : OnlyEvicts c c.evictOldest := by
  unfold evictOldest
  split
  · exact ⟨rfl, rfl, rfl⟩
  · exact .refl c

theorem onlyEvicts_evict (c : Cache α) (n : Nat) : OnlyEvicts c (evict n c) := by
  induction n generalizing c with
  | zero => exact .refl c
  | succ n ih => exact (onlyEvicts_evictOldest c).trans (ih c.evictOldest)

theorem onlyEvicts_fitCapacity (c : Cache α) : OnlyEvicts c c.fitCapacity := by
  unfold fitCapacity
  split
  · exact onlyEvicts_evict c _
  · exact .refl c

/-! ### Look-ups -/

/-- All that a look-up can find, and what becomes of the cache. -/
inductive Found (c : Cache α) (now : Nat) (f : Fingerprint) : Lookup α → Cache α → Prop
  | live {e : Entry α} (stored : c.slot? f = some (.ready e)) (live : e.isExpired now = false) :
    Found c now f (.hit e.content)
      { c.setSlot f (.ready (e.touch now)) with counts.hits := c.counts.hits + 1 }
  | inFlight {n : Nat} (pending : c.slot? f = some (.pending n)) :
    Found c now f (.wait n) { c with counts.coalesced := c.counts.coalesced + 1 }
  | expired {e : Entry α} (stored : c.slot? f = some (.ready e))
      (expired : e.isExpired now = true) :
    Found c now f (c.lead f).1 (c.lead f).2
  | absent (free : c.slot? f = none) : Found c now f (c.lead f).1 (c.lead f).2

theorem lookup_found (c : Cache α) (now : Nat) (f : Fingerprint) :
    Found c now f (c.lookup now f).1 (c.lookup now f).2 := by
  unfold lookup
  split
  · next e he =>
    split
    · next hx => exact .expired he hx
    · next hx => exact .live he (by simpa using hx)
  · next n hn => exact .inFlight hn
  · next hn => exact .absent hn

end EmbeddedLang.Cache
