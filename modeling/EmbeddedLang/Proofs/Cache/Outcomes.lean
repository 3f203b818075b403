import EmbeddedLang.Proofs.Cache.SingleFlight
import Mathlib.Data.List.Basic

/-!
Every request is answered with the outcome of a compilation of its own fingerprint.

The answer is traced to the step in which that compilation came to its end, in whatever order the
steps of all requests were taken.
-/

namespace EmbeddedLang

variable {α : Type}

def Progress.number? (p : Progress α) : Option Nat :=
  p.leads?.map (·.1)

def Progress.outcome? : Progress α → Option (Except CompileError α)
  | .settled _ outcome | .led _ outcome => some outcome
  | _ => none

/-- The outcome to which the compilation of the request in this place comes in a step. -/
def Step.outcomeOf? (i : Nat) : Step α → Option (Except CompileError α)
  | .move j (.settle _ outcome) => if j = i then some outcome else none
  | _ => none

def outcomesOf (i : Nat) (steps : List (Step α)) : List (Except CompileError α) :=
  steps.filterMap (Step.outcomeOf? i)

namespace Traffic

open Cache

variable {t t' u : Traffic α} {steps : List (Step α)}

/-- The request in this place is for this fingerprint and leads the compilation of this number. -/
def LeadsFor (t : Traffic α) (i : Nat) (f : Fingerprint) (n : Nat) : Prop :=
  ∃ r, t.requests[i]? = some r ∧ r.fingerprint = f ∧ r.progress.number? = some n

/-- The artifact that a step makes for a fingerprint. -/
def made? (t : Traffic α) (f : Fingerprint) : Step α → Option (Shared α)
  | .move i (.settle _ (.ok artifact)) => do
    let r ← t.requests[i]?
    let n ← r.progress.number?
    if r.fingerprint = f then some ⟨n, artifact⟩ else none
  | _ => none

/-- The last artifact that was compiled for a fingerprint. -/
def latest? (t : Traffic α) (steps : List (Step α)) (f : Fingerprint) : Option (Shared α) :=
  (steps.filterMap (t.made? f)).getLast?

/-- The first of the two requests came while the other was compiling for its fingerprint. -/
def Joins (t : Traffic α) (steps : List (Step α)) (i j : Nat) (f : Fingerprint) (n : Nat) : Prop :=
  ∃ earlier now later u, steps = earlier ++ .request f now :: later ∧ t.run? earlier = some u ∧
    u.requests.length = i ∧ u.Compiles j f n

/-! ### Requests keep what they lead -/

/-- Fingerprints and compilations led stay the same. -/
def Keeps (t t' : Traffic α) : Prop :=
  ∀ (i : Nat) (r : Request α), t.requests[i]? = some r → ∃ r', t'.requests[i]? = some r' ∧
    r'.fingerprint = r.fingerprint ∧ r'.progress.number? = r.progress.number?

theorem number?_of_moved {c c' : Cache α} {f : Fingerprint} {p p' : Progress α} {m : Move α}
    (h : Moved c f p m c' p') : p'.number? = p.number? := by
  cases h <;> rfl

theorem keeps_push (cache : Cache α) (x : Request α) : t.Keeps ⟨cache, t.requests ++ [x]⟩ := by
  intro i r hr
  exact ⟨r, getElem?_push.mpr (.inl hr), rfl, rfl⟩

theorem keeps_of_step? {s : Step α} (hs : t.step? s = some t') : t.Keeps t' :=
  fun _ _ hr => exists_of_step? (R := fun p p' => p'.number? = p.number?) (fun _ => rfl)
    number?_of_moved hs hr

theorem Keeps.leadsFor (h : t.Keeps t') {i n : Nat} {f : Fingerprint} (hi : t.LeadsFor i f n) :
    t'.LeadsFor i f n := by
  obtain ⟨r, hr, hf, hn⟩ := hi
  obtain ⟨r', hr', hf', hn'⟩ := h i r hr
  exact ⟨r', hr', hf'.trans hf, hn'.trans hn⟩

theorem Keeps.made? (h : t.Keeps t') (f : Fingerprint) {s : Step α}
    (hs : ∀ i, s.outcomeOf? i ≠ none → ∃ r, t.requests[i]? = some r) :
    t'.made? f s = t.made? f s := by
  unfold Traffic.made?
  split
  · next i now artifact =>
    obtain ⟨r, hr⟩ := hs i (by simp [Step.outcomeOf?])
    obtain ⟨r', hr', hf, hn⟩ := h i r hr
    simp [hr, hr', hf, hn]
  · rfl

/-! ### What the steps taken tell of a state -/

structure Recorded (t₀ : Traffic α) (steps : List (Step α)) (t : Traffic α) : Prop where
  outcomes : ∀ i : Nat,
    outcomesOf i steps = (t.requests[i]?.bind fun r => r.progress.outcome?).toList
  joins : ∀ (i : Nat) (f : Fingerprint) (n : Nat), t.requests[i]? = some ⟨f, .waiting n⟩ →
    ∃ j, t₀.Joins steps i j f n ∧ t.LeadsFor j f n
  latest : ∀ f e, t.cache.slot? f = some (.ready e) → t.latest? steps f = some e.content

theorem recorded_start (maxEntries ttl : Option Nat) :
    Recorded (start maxEntries ttl : Traffic α) [] (start maxEntries ttl) where
  outcomes _ := rfl
  joins := by
    rintro i f n ⟨⟩
  latest := by
    rintro f e ⟨⟩

theorem outcomesOf_concat (i : Nat) (s : Step α) :
    outcomesOf i (steps ++ [s]) = outcomesOf i steps ++ (s.outcomeOf? i).toList := by
  unfold outcomesOf
  cases h : s.outcomeOf? i <;> simp [List.filterMap_append, h]

theorem Joins.concat {i j n : Nat} {f : Fingerprint} (h : t.Joins steps i j f n) (s : Step α) :
    t.Joins (steps ++ [s]) i j f n := by
  obtain ⟨earlier, now, later, u, rfl, hu, hi, hj⟩ := h
  exact ⟨earlier, now, later ++ [s], u, by simp, hu, hi, hj⟩

namespace Recorded

variable {t₀ : Traffic α}

theorem exists_of_outcomeOf? (h : Recorded t₀ steps t) {s : Step α} (hs : s ∈ steps) {i : Nat}
    (hi : s.outcomeOf? i ≠ none) : ∃ r, t.requests[i]? = some r := by
  obtain ⟨outcome, ho⟩ := Option.ne_none_iff_exists'.mp hi
  have hm : outcome ∈ outcomesOf i steps := List.mem_filterMap.mpr ⟨s, hs, ho⟩
  rw [h.outcomes] at hm
  cases hr : t.requests[i]? with
  | some r => exact ⟨r, rfl⟩
  | none => simp [hr] at hm

/-- What was the latest artifact stays so, unless the step makes another. -/
theorem latest?_concat (h : Recorded t₀ steps t) (hk : t.Keeps t') (f : Fingerprint) (s : Step α) :
    t'.latest? (steps ++ [s]) f = (t'.made? f s).or (t.latest? steps f) := by
  have hsame : steps.filterMap (t'.made? f) = steps.filterMap (t.made? f) := by
    apply List.filterMap_congr
    intro s' hs'
    exact hk.made? f fun i hi => h.exists_of_outcomeOf? hs' hi
  unfold latest?
  rw [List.filterMap_append, hsame]
  cases hm : t'.made? f s <;> simp [hm]

/-! ### One step -/

theorem outcomes_push (f : Fingerprint) {p : Progress α} (hp : p.outcome? = none) (i : Nat) :
    ((t.requests ++ [⟨f, p⟩])[i]?.bind fun r => r.progress.outcome?) =
      t.requests[i]?.bind fun r => r.progress.outcome? := by
  by_cases hi : i < t.requests.length
  · rw [List.getElem?_append_left hi]
  · grind

theorem outcome?_of_moved {c c' : Cache α} {f : Fingerprint} {p p' : Progress α} {m : Move α}
    (h : Moved c f p m c' p') (i : Nat) :
    p'.outcome?.toList = p.outcome?.toList ++ ((Step.move i m).outcomeOf? i).toList := by
  cases h <;> simp [Progress.outcome?, Step.outcomeOf?]

theorem outcomeOf?_ne {i j : Nat} (h : i ≠ j) (m : Move α) :
    (Step.move i m).outcomeOf? j = none := by
  cases m <;> simp [Step.outcomeOf?, h]

theorem outcomes_step (h : Recorded t₀ steps t) (hsound : t.Sound) {s : Step α}
    (hs : t.step? s = some t') (i : Nat) :
    outcomesOf i (steps ++ [s]) = (t'.requests[i]?.bind fun r => r.progress.outcome?).toList := by
  rw [outcomesOf_concat, h.outcomes]
  cases s with
  | request f now =>
    obtain ⟨found, cache, hl, rfl⟩ := looked_of_step? hsound.sorted hs
    have hnone : (Progress.ofLookup found).outcome? = none := by
      cases hl <;> rfl
    simp [outcomes_push f hnone, Step.outcomeOf?]
  | move j m =>
    obtain ⟨r, cache, p, hr, hm, rfl⟩ := move_of_step? hs
    by_cases hij : j = i
    · subst hij
      have hj : (t.requests.set j ⟨r.fingerprint, p⟩)[j]? = some ⟨r.fingerprint, p⟩ :=
        (getElem?_update hr).mpr (by rw [if_pos rfl])
      simp [hr, hj, outcome?_of_moved hm j]
    · rw [outcomeOf?_ne hij, List.getElem?_set_ne hij]
      simp
  | invalidate | clear | purge =>
    cases hs
    simp [Step.outcomeOf?]

theorem waiting_of_moved {c c' : Cache α} {f : Fingerprint} {p p' : Progress α} {m : Move α}
    (h : Moved c f p m c' p') (n : Nat) : p' ≠ .waiting n := by
  cases h <;> nofun

/-- Who waits now has waited before, or has just come across a compilation in progress. -/
theorem joins_step (h : Recorded t₀ steps t) (hsound : t.Sound) (hrun : t₀.run? steps = some t)
    {s : Step α} (hs : t.step? s = some t') {i n : Nat} {f : Fingerprint}
    (hi : t'.requests[i]? = some ⟨f, .waiting n⟩) :
    ∃ j, t₀.Joins (steps ++ [s]) i j f n ∧ t'.LeadsFor j f n := by
  have hold (hi : t.requests[i]? = some ⟨f, .waiting n⟩) :
      ∃ j, t₀.Joins (steps ++ [s]) i j f n ∧ t'.LeadsFor j f n := by
    obtain ⟨j, hj, hl⟩ := h.joins i f n hi
    exact ⟨j, hj.concat s, (keeps_of_step? hs).leadsFor hl⟩
  cases s with
  | request g now =>
    obtain ⟨found, cache, hl, rfl⟩ := looked_of_step? hsound.sorted hs
    rcases getElem?_push.mp hi with hi | ⟨hlen, hx⟩
    · exact hold hi
    · cases hl with
      | hit | lead => cases hx
      | wait pending _ =>
        cases hx
        obtain ⟨j, hj⟩ := (hsound.pending_iff f n).mp pending
        refine ⟨j, ⟨steps, now, [], t, rfl, hrun, hlen.symm, hj⟩, ?_⟩
        exact (keeps_push cache _).leadsFor ⟨_, hj, rfl, rfl⟩
  | move j m =>
    obtain ⟨r, cache, p, hr, hm, rfl⟩ := move_of_step? hs
    have hi := (getElem?_update hr).mp hi
    split at hi
    · cases hi
      exact absurd rfl (waiting_of_moved hm n)
    · exact hold hi
  | invalidate | clear | purge =>
    cases hs
    exact hold hi

theorem latest_of_stored (h : Recorded t₀ steps t) (hk : t.Keeps t') {s : Step α}
    {f : Fingerprint} {e e' : Entry α} (hm : t'.made? f s = none)
    (he : t.cache.slot? f = some (.ready e)) (hcontent : e.content = e'.content) :
    t'.latest? (steps ++ [s]) f = some e'.content := by
  rw [h.latest?_concat hk, hm, Option.none_or, h.latest f e he, hcontent]

theorem latest_of_settle (h : Recorded t₀ steps t) (hsound : t.Sound) {i n now : Nat}
    {f : Fingerprint} (hi : t.Compiles i f n) {outcome : Except CompileError α}
    (hs : t.step? (.move i (.settle now outcome)) = some t')
    (ht' : t' = ⟨t.cache.settle now f n outcome, t.requests.set i ⟨f, .settled n outcome⟩⟩)
    {g : Fingerprint} {e : Entry α} (he : t'.cache.slot? g = some (.ready e)) :
    t'.latest? (steps ++ [.move i (.settle now outcome)]) g = some e.content := by
  have hk := keeps_of_step? hs
  have hi' : t'.LeadsFor i f n := hk.leadsFor ⟨_, hi, rfl, rfl⟩
  obtain ⟨r, hr, hf, hn⟩ := hi'
  cases outcome with
  | ok a =>
    subst ht'
    -- eviction stores nothing, so the entry is the new one or was there before
    obtain ⟨e', he', hc⟩ := (sheds_settle_ok hsound.sorted now f n a).stored g e he
    by_cases hg : g = f
    · subst hg
      rw [slot?_setSlot_self] at he'
      cases he'
      rw [h.latest?_concat hk]
      simp [made?, hr, hf, hn, ← hc, Entry.make]
    · rw [slot?_setSlot_ne hg] at he'
      apply h.latest_of_stored hk ?_ he' hc
      simp [made?, hr, hf, hn, Ne.symm hg]
  | error err =>
    subst ht'
    obtain ⟨_, he'⟩ := (slot?_dropSlot_eq_some_iff hsound.sorted f g _).mp he
    exact h.latest_of_stored hk rfl he' rfl

theorem latest_step (h : Recorded t₀ steps t) (hsound : t.Sound) {s : Step α}
    (hs : t.step? s = some t') {f : Fingerprint} {e : Entry α}
    (he : t'.cache.slot? f = some (.ready e)) : t'.latest? (steps ++ [s]) f = some e.content := by
  have hk := keeps_of_step? hs
  have hshed (hm : t'.made? f s = none) (hc : Sheds t.cache t'.cache) :
      t'.latest? (steps ++ [s]) f = some e.content := by
    obtain ⟨e', he', hcontent⟩ := hc.stored f e he
    exact h.latest_of_stored hk hm he' hcontent
  cases s with
  | request g now =>
    obtain ⟨found, cache, hl, rfl⟩ := looked_of_step? hsound.sorted hs
    cases hl with
    | hit _ hc => exact hshed rfl hc
    | wait _ hc => exact hshed rfl hc
    | lead free =>
      have hg : f ≠ g := by
        rintro rfl
        exact nomatch (slot?_lead_self t.cache f).symm.trans he
      exact h.latest_of_stored hk rfl ((slot?_lead_ne t.cache hg).symm.trans he) rfl
  | move i m =>
    obtain ⟨⟨g, q⟩, cache, p, hr, hm, rfl⟩ := move_of_step? hs
    cases hm with
    | settle n now outcome => exact h.latest_of_settle hsound hr hs rfl he
    | unwind n =>
      obtain ⟨_, he'⟩ := (slot?_dropSlot_eq_some_iff hsound.sorted g f _).mp he
      exact h.latest_of_stored hk rfl he' rfl
    | publish | close | receive | cancel => exact h.latest_of_stored hk rfl he rfl
  | invalidate g =>
    cases hs
    exact hshed rfl (sheds_invalidate hsound.sorted g)
  | clear =>
    cases hs
    exact hshed rfl (sheds_clear hsound.sorted)
  | purge now =>
    cases hs
    exact hshed rfl (sheds_purge hsound.sorted now)

theorem step (h : Recorded t₀ steps t) (hsound : t.Sound) (hrun : t₀.run? steps = some t)
    {s : Step α} (hs : t.step? s = some t') : Recorded t₀ (steps ++ [s]) t' where
  outcomes := h.outcomes_step hsound hs
  joins _ _ _ := h.joins_step hsound hrun hs
  latest _ _ := h.latest_step hsound hs

end Recorded

theorem recorded_of_run? {maxEntries ttl : Option Nat}
    (h : (start maxEntries ttl).run? steps = some t) : Recorded (start maxEntries ttl) steps t := by
  induction steps using List.reverseRecOn generalizing t with
  | nil =>
    cases h
    exact recorded_start maxEntries ttl
  | append_singleton steps s ih =>
    obtain ⟨u, hu, hs⟩ := run?_concat.mp h
    exact (ih hu).step (sound_of_run? hu) hu hs

/-! ### Answers -/

/-- What a request may have returned, by the way it went. One that waited has joined a compilation
of its fingerprint, and returns the outcome or, exactly if that compilation panicked, none. -/
def Agrees (t₀ : Traffic α) (steps : List (Step α)) (t : Traffic α) (i : Nat) : Request α → Prop
  | ⟨f, .hit content⟩ => t.latest? steps f = some content
  | ⟨_, .led _ outcome⟩ => outcomesOf i steps = [outcome]
  | ⟨f, .joined n answer⟩ => ∃ j, t₀.Joins steps i j f n ∧
    ((∃ outcome, t.requests[j]? = some ⟨f, .led n outcome⟩ ∧ outcomesOf j steps = [outcome] ∧
        answer = outcome.map (⟨n, ·⟩)) ∨
      t.requests[j]? = some ⟨f, .panicked n⟩ ∧ answer = .error (.abandoned f.text))
  | _ => False

/-- A request for this fingerprint has compiled the artifact without an error. -/
def Compiled (t : Traffic α) (steps : List (Step α)) (f : Fingerprint) (content : Shared α) :
    Prop :=
  ∃ j, t.LeadsFor j f content.maker ∧ outcomesOf j steps = [.ok content.artifact]

namespace Recorded

variable {t₀ : Traffic α}

theorem outcomesOf_of_mem (h : Recorded t₀ steps t) {i : Nat} {outcome : Except CompileError α}
    (hm : outcome ∈ outcomesOf i steps) : outcomesOf i steps = [outcome] := by
  rw [h.outcomes] at hm ⊢
  rw [Option.mem_toList.mp hm]
  rfl

theorem compiled_of_latest? (h : Recorded t₀ steps t) {f : Fingerprint} {content : Shared α}
    (hl : t.latest? steps f = some content) : t.Compiled steps f content := by
  obtain ⟨s, hs, hm⟩ := List.mem_filterMap.mp (List.mem_of_getLast? hl)
  unfold made? at hm
  split at hm
  · next i now artifact =>
    obtain ⟨r, hr, hm⟩ := Option.bind_eq_some_iff.mp hm
    obtain ⟨n, hn, hm⟩ := Option.bind_eq_some_iff.mp hm
    split at hm
    · next hf =>
      cases hm
      refine ⟨i, ⟨r, hr, hf, hn⟩, h.outcomesOf_of_mem ?_⟩
      exact List.mem_filterMap.mpr ⟨_, hs, by simp [Step.outcomeOf?]⟩
    · cases hm
  · cases hm

theorem compiled_of_led {i n : Nat} {f : Fingerprint} {outcome : Except CompileError α}
    (hi : t.requests[i]? = some ⟨f, .led n outcome⟩) (ho : outcomesOf i steps = [outcome])
    {content : Shared α} (hc : outcome.map (⟨n, ·⟩) = .ok content) :
    t.Compiled steps f content := by
  cases outcome with
  | error e => cases hc
  | ok a =>
    cases hc
    exact ⟨i, ⟨_, hi, rfl, rfl⟩, ho⟩

theorem compiled_of_agrees (h : Recorded t₀ steps t) {i : Nat} {r : Request α}
    (hr : t.requests[i]? = some r) (ha : Agrees t₀ steps t i r) {content : Shared α}
    (hc : r.progress.answer? = some (.ok content)) : t.Compiled steps r.fingerprint content := by
  obtain ⟨f, p⟩ := r
  cases p with
  | hit =>
    cases hc
    exact h.compiled_of_latest? ha
  | led n outcome => exact compiled_of_led hr ha (Option.some.inj hc)
  | joined n answer =>
    cases hc
    obtain ⟨j, _, ⟨outcome, hj, ho, hanswer⟩ | ⟨_, hanswer⟩⟩ := ha
    · exact compiled_of_led hj ho hanswer.symm
    · cases hanswer
  | compiling | settled | unwinding | panicked | waiting | cancelled => cases hc

/-- A request is told something only when the one it has joined is over, and that one stays as it
is while the request receives its answer. -/
theorem agrees_of_told (h : Recorded t₀ steps t) (hsound : t.Sound) {i n : Nat} {f : Fingerprint}
    (hi : t.requests[i]? = some ⟨f, .waiting n⟩) {answer : Except CompileError (Shared α)}
    (told : t.cache.await? f n = some answer) {s : Step α}
    (h' : Recorded t₀ (steps ++ [s]) ⟨t.cache, t.requests.set i ⟨f, .joined n answer⟩⟩) :
    Agrees t₀ (steps ++ [s]) ⟨t.cache, t.requests.set i ⟨f, .joined n answer⟩⟩ i
      ⟨f, .joined n answer⟩ := by
  obtain ⟨j, hjoins, ⟨g, p⟩, hj, hf, hn⟩ := h.joins i f n hi
  obtain ⟨⟨k, state⟩, hleads, hk⟩ := Option.map_eq_some_iff.mp hn
  dsimp only at hf hk
  subst hf hk
  have hstate := hsound.told j k state ⟨_, hj, hleads⟩
  have hij : i ≠ j := by
    rintro rfl
    cases hi.symm.trans hj
    cases hleads
  have hj' : (t.requests.set i ⟨g, .joined k answer⟩)[j]? = some ⟨g, p⟩ :=
    (List.getElem?_set_ne hij).trans hj
  unfold await? at told
  rw [hstate] at told
  refine ⟨j, hjoins.concat s, ?_⟩
  cases p with
  | led n outcome =>
    cases hleads
    cases told
    have ho : outcomesOf j (steps ++ [s]) = [outcome] := by
      rw [h'.outcomes, hj']
      rfl
    exact .inl ⟨outcome, hj', ho, rfl⟩
  | panicked n =>
    cases hleads
    cases told
    exact .inr ⟨hj', rfl⟩
  | compiling | settled | unwinding =>
    cases hleads
    cases told
  | hit | waiting | joined | cancelled => cases hleads

end Recorded

/-- Whatever the order of steps, a request that returns is answered as it has to be, and never with
an artifact of another fingerprint or of a compilation that failed. -/
theorem answers_agree {maxEntries ttl : Option Nat} {steps : List (Step α)} {t t' : Traffic α}
    (h : (start maxEntries ttl).run? steps = some t) {s : Step α} (hs : t.step? s = some t')
    {i : Nat} (hbefore : ∀ r, t.requests[i]? = some r → r.progress.answer? = none)
    {r : Request α} (hr : t'.requests[i]? = some r) {answer : Except CompileError (Shared α)}
    (ha : r.progress.answer? = some answer) :
    Agrees (start maxEntries ttl) (steps ++ [s]) t' i r ∧
      ∀ content, answer = .ok content → t'.Compiled (steps ++ [s]) r.fingerprint content := by
  have hrec := recorded_of_run? h
  have hsound := sound_of_run? h
  have hrec' := hrec.step hsound h hs
  -- the request that returns is the one that takes the step
  have hnew : t.requests[i]? ≠ some r := by
    intro hr
    rw [hbefore r hr] at ha
    cases ha
  have hagrees : Agrees (start maxEntries ttl) (steps ++ [s]) t' i r := by
    cases s with
    | request f now =>
      obtain ⟨found, cache, hl, rfl⟩ := looked_of_step? hsound.sorted hs
      rcases getElem?_push.mp hr with hr | ⟨hlen, rfl⟩
      · exact absurd hr hnew
      · cases hl with
        | hit stored _ => exact hrec.latest_of_stored (keeps_push _ _) rfl stored rfl
        | wait | lead => cases ha
    | move j m =>
      obtain ⟨⟨f, q⟩, cache, p, hj, hm, rfl⟩ := move_of_step? hs
      have hr' := (getElem?_update hj).mp hr
      split at hr'
      · next hij =>
        subst hij hr'
        cases hm with
        | publish n outcome =>
          change outcomesOf j _ = [outcome]
          rw [hrec'.outcomes, hr]
          rfl
        | receive told => exact hrec.agrees_of_told hsound hj told hrec'
        | settle | unwind | close | cancel => cases ha
      · exact absurd hr' hnew
    | invalidate | clear | purge =>
      cases hs
      exact absurd hr hnew
  refine ⟨hagrees, ?_⟩
  rintro content rfl
  exact hrec'.compiled_of_agrees hr hagrees ha

/-- An artifact is cleared and compiled again before one who waits for the first is told. -/
def recompilation : List (Step Nat) :=
  [.request ⟨"a"⟩ 0, .request ⟨"a"⟩ 0, .move 0 (.settle 1 (.ok 7)), .clear, .request ⟨"a"⟩ 2,
    .move 0 .publish, .move 2 (.settle 4 (.ok 8))]

def recompiled : Traffic Nat where
  cache := ⟨[("a", .ready ⟨⟨1, 8⟩, 4, none, 4⟩)], [.finished (.ok 7), .running], none, none,
    ⟨0, 2, 1, 0, 0, 0⟩⟩
  requests := [⟨⟨"a"⟩, .led 0 (.ok 7)⟩, ⟨⟨"a"⟩, .waiting 0⟩, ⟨⟨"a"⟩, .settled 1 (.ok 8)⟩]

def received : Traffic Nat :=
  { recompiled with
    requests := [⟨⟨"a"⟩, .led 0 (.ok 7)⟩, ⟨⟨"a"⟩, .joined 0 (.ok ⟨0, 7⟩)⟩,
      ⟨⟨"a"⟩, .settled 1 (.ok 8)⟩] }

theorem answers_agree_received :
    (start none none).run? recompilation = some recompiled ∧
      recompiled.step? (.move 1 .receive) = some received ∧
      Agrees (start none none) (recompilation ++ [.move 1 .receive]) received 1
        ⟨⟨"a"⟩, .joined 0 (.ok ⟨0, 7⟩)⟩ ∧
      received.Compiled (recompilation ++ [.move 1 .receive]) ⟨"a"⟩ ⟨0, 7⟩ := by
  have hrun : (start none none).run? recompilation = some recompiled := by rfl
  have hstep : recompiled.step? (.move 1 .receive) = some received := by rfl
  have hbefore : ∀ r, recompiled.requests[1]? = some r → r.progress.answer? = none := by
    rintro r ⟨⟩
    rfl
  have hr : received.requests[1]? = some ⟨⟨"a"⟩, .joined 0 (.ok ⟨0, 7⟩)⟩ := by rfl
  obtain ⟨hagrees, hcompiled⟩ := answers_agree hrun hstep hbefore hr rfl
  exact ⟨hrun, hstep, hagrees, hcompiled _ rfl⟩

end Traffic

end EmbeddedLang
