import EmbeddedLang.Engine.Query
import EmbeddedLang.Engine.Template
import EmbeddedLang.Proofs.Cache.Fingerprints
import EmbeddedLang.Proofs.Cache.Slots

/-!
The cache of an engine cannot be observed in the artifacts.

Whatever is stored was compiled from a source under a configuration that give its fingerprint. It is
handed out for another source or configuration only if the two messages have one digest.
-/

namespace EmbeddedLang

namespace Language

variable {κ α : Type}

/-- The bytes of which a fingerprint is the digest. -/
def message (l : Language κ α) (config : κ) (source : String) : List UInt8 :=
  Fingerprint.encode compilerVersion l.name (l.variant config) source

def fingerprint (l : Language κ α) (config : κ) (source : String) : Fingerprint :=
  .ofBytes (l.message config source)

/-- Requests that share a fingerprint are for one artifact. -/
def Agrees (l : Language κ α) (requests : List (κ × String)) : Prop :=
  ∀ r ∈ requests, ∀ r' ∈ requests, l.fingerprint r.1 r.2 = l.fingerprint r'.1 r'.2 →
    l.compile r.1 r.2 = l.compile r'.1 r'.2

end Language

/-! ### What a cache stores -/

section Store

variable {κ α : Type} {l : Language κ α} {c c' : Cache α} {seen : List (κ × String)}

/-- No compilation is in flight, and all artifacts are those of requests that were made. -/
structure Cache.Made (l : Language κ α) (seen : List (κ × String)) (c : Cache α) : Prop where
  sorted : c.Sorted
  idle : ∀ f n, c.slot? f ≠ some (.pending n)
  made : ∀ f e, c.slot? f = some (.ready e) → ∃ r ∈ seen,
    f = l.fingerprint r.1 r.2 ∧ l.compile r.1 r.2 = .ok e.content.artifact

namespace Cache.Made

theorem empty (l : Language κ α) (seen : List (κ × String)) (maxEntries ttl : Option Nat) :
    Made l seen (Cache.empty maxEntries ttl) where
  sorted := List.Pairwise.nil
  idle _ _ h := nomatch h
  made _ _ h := nomatch h

theorem sheds (h : Made l seen c) (hs : Sheds c c') : Made l seen c' where
  sorted := hs.sorted
  idle f n hn := h.idle f n ((hs.pending_iff f n).mp hn)
  made f e' he' := by
    obtain ⟨e, he, hcontent⟩ := hs.stored f e' he'
    rw [← hcontent]
    exact h.made f e he

/-- A compilation that was begun and came to an outcome leaves the artifact or nothing. -/
theorem complete_lead (h : Made l seen c) {config : κ} {source : String}
    (hr : (config, source) ∈ seen) (now number : Nat) :
    Made l seen ((c.lead (l.fingerprint config source)).2.complete now
      (l.fingerprint config source) number (l.compile config source)) := by
  generalize hf : l.fingerprint config source = f
  -- the slot of this fingerprint is the only one that does not go back to what it was
  have hsorted : (c.lead f).2.Sorted := h.sorted.setSlot f _
  refine ⟨hsorted.settle now f number _, ?_, ?_⟩
  · intro g n hn
    obtain ⟨hne, hg⟩ := (settle_pending_iff hsorted now f number _ g n).mp hn
    rw [slot?_lead_ne c hne] at hg
    exact h.idle g n hg
  · intro g e he
    cases hout : l.compile config source with
    | ok a =>
      rw [hout] at he
      obtain ⟨e', he', hcontent⟩ := (sheds_settle_ok hsorted now f number a).stored g e he
      rw [← hcontent]
      by_cases hg : g = f
      · subst hg
        rw [slot?_setSlot_self] at he'
        cases he'
        exact ⟨_, hr, hf.symm, hout⟩
      · rw [slot?_setSlot_ne hg, slot?_lead_ne c hg] at he'
        exact h.made g e' he'
    | error err =>
      rw [hout] at he
      obtain ⟨hg, he⟩ := (slot?_dropSlot_eq_some_iff hsorted f g _).mp he
      rw [slot?_lead_ne c hg] at he
      exact h.made g e he

/-- Under one fingerprint only one artifact can be stored. -/
theorem get? (h : Made l seen c) (agree : l.Agrees seen) {config : κ} {source : String}
    (hr : (config, source) ∈ seen) (now : Nat) :
    (c.get? now (l.fingerprint config source) fun _ => l.compile config source).1.map
        (·.map Shared.artifact) = some (l.compile config source) ∧
      Made l seen
        (c.get? now (l.fingerprint config source) fun _ => l.compile config source).2 := by
  have hlook := lookup_looked h.sorted now (l.fingerprint config source)
  unfold Cache.get?
  generalize c.lookup now (l.fingerprint config source) = found at hlook
  obtain ⟨answer, c'⟩ := found
  cases hlook with
  | @hit e _ stored sheds =>
    -- what is stored may be of another request, but of one with this fingerprint
    obtain ⟨r, hmem, hfingerprint, hcompile⟩ := h.made _ e stored
    have hsame := (agree _ hr r hmem hfingerprint).trans hcompile
    exact ⟨congrArg some hsame.symm, h.sheds sheds⟩
  | @wait n _ pending _ => exact absurd pending (h.idle _ n)
  | lead _ =>
    refine ⟨?_, h.complete_lead hr now _⟩
    cases l.compile config source <;> rfl

end Cache.Made

end Store

/-! ### The uses of an engine -/

namespace Engine

/-- What is done with an engine over time; `ρ` is what can be changed in its configuration. -/
inductive Use (ρ : Type) where
  | compile (now : Nat) (source : String)
  | invalidate (f : Fingerprint)
  | clear
  | purge (now : Nat)
  | change (r : ρ)

variable {κ α ρ : Type} {l : Language κ α} {change : ρ → Engine κ α → Engine κ α}

def use (change : ρ → Engine κ α → Engine κ α) (e : Engine κ α) : Use ρ → Engine κ α
  | .compile now source => (e.compileCached now source).2
  | .invalidate f => { e with cache := e.cache.map fun c => (c.invalidate f).2 }
  | .clear => { e with cache := e.cache.map Cache.clear }
  | .purge now => { e with cache := e.cache.map fun c => (c.purge now).2 }
  | .change r => change r e

def after (change : ρ → Engine κ α → Engine κ α) (e : Engine κ α) (uses : List (Use ρ)) :
    Engine κ α :=
  uses.foldl (use change) e

/-- The sources that are compiled, each with the configuration of its time. -/
def requests (change : ρ → Engine κ α → Engine κ α) (e : Engine κ α) :
    List (Use ρ) → List (κ × String)
  | [] => []
  | .compile now source :: rest =>
    (e.config, source) :: requests change (use change e (.compile now source)) rest
  | u :: rest => requests change (use change e u) rest

def messages (change : ρ → Engine κ α → Engine κ α) (e : Engine κ α) (uses : List (Use ρ)) :
    List (List UInt8) :=
  (requests change e uses).map fun r => e.language.message r.1 r.2

/-- A change keeps the language and the cache, and the configuration within `p`. -/
structure Adjusts (change : ρ → Engine κ α → Engine κ α) (p : κ → Prop) : Prop where
  language : ∀ r e, (change r e).language = e.language
  cache : ∀ r e, (change r e).cache = e.cache
  config : ∀ r e, p e.config → p (change r e).config

theorem requests_append (change : ρ → Engine κ α → Engine κ α) (e : Engine κ α)
    (us vs : List (Use ρ)) :
    requests change e (us ++ vs) =
      requests change e us ++ requests change (after change e us) vs := by
  induction us generalizing e with
  | nil => rfl
  | cons u us ih =>
    cases u <;> simp only [List.cons_append, requests, ih, after, List.foldl_cons]

theorem snd_compileCached_language (e : Engine κ α) (now : Nat) (source : String) :
    (e.compileCached now source).2.language = e.language := by
  unfold compileCached
  split <;> rfl

theorem snd_compileCached_config (e : Engine κ α) (now : Nat) (source : String) :
    (e.compileCached now source).2.config = e.config := by
  unfold compileCached
  split <;> rfl

/-! ### What an engine stores -/

section Store

variable {e : Engine κ α} {seen : List (κ × String)}

/-- The cache, if there is one, stores only what was compiled for these requests. -/
def Made (seen : List (κ × String)) (e : Engine κ α) : Prop :=
  ∀ c, e.cache = some c → c.Made e.language seen

theorem Made.onCache (h : Made seen e) {f : Cache α → Cache α}
    (hf : ∀ c, c.Sorted → Cache.Sheds c (f c)) : Made seen { e with cache := e.cache.map f } := by
  intro c hc
  obtain ⟨c', hc', rfl⟩ := Option.map_eq_some_iff.mp hc
  have hmade := h c' hc'
  exact hmade.sheds (hf c' hmade.sorted)

theorem map_artifact_delivery (answer : Option (Except CompileError (Shared α))) :
    (answer.map (·.map Shared.delivery)).map (·.map Delivery.artifact) =
      answer.map (·.map Shared.artifact) := by
  rcases answer with _ | _ | _ <;> rfl

theorem Made.compileCached (h : Made seen e) (agrees : e.language.Agrees seen) {source : String}
    (hr : (e.config, source) ∈ seen) (now : Nat) :
    (e.compileCached now source).1.map (·.map Delivery.artifact) = some (e.compile source) ∧
      Made seen (e.compileCached now source).2 := by
  unfold Engine.compileCached
  split
  · refine ⟨?_, h⟩
    cases e.compile source <;> rfl
  · next c hc =>
    obtain ⟨hanswer, hmade⟩ := (h c hc).get? agrees hr now
    constructor
    · exact (map_artifact_delivery _).trans hanswer
    · rintro _ ⟨⟩
      exact hmade

end Store

/-! ### A whole history -/

section Run

variable {p : κ → Prop} (adjusts : Adjusts change p) {e : Engine κ α} {seen : List (κ × String)}
include adjusts

theorem language_use (e : Engine κ α) (u : Use ρ) : (use change e u).language = e.language := by
  cases u with
  | compile now source => exact snd_compileCached_language e now source
  | change r => exact adjusts.language r e
  | _ => rfl

theorem language_after (e : Engine κ α) (uses : List (Use ρ)) :
    (after change e uses).language = e.language := by
  induction uses generalizing e with
  | nil => rfl
  | cons u uses ih => exact (ih (use change e u)).trans (language_use adjusts e u)

theorem config_use (hp : p e.config) (u : Use ρ) : p (use change e u).config := by
  cases u with
  | compile now source =>
    rw [use, snd_compileCached_config]
    exact hp
  | change r => exact adjusts.config r e hp
  | _ => exact hp

theorem config_of_mem_requests (hp : p e.config) {uses : List (Use ρ)} {r : κ × String}
    (hr : r ∈ requests change e uses) : p r.1 := by
  induction uses generalizing e with
  | nil => cases hr
  | cons u uses ih =>
    have hnext := config_use adjusts hp u
    cases u with
    | compile now source =>
      rcases List.mem_cons.mp hr with rfl | hr
      · exact hp
      · exact ih hnext hr
    | _ => exact ih hnext hr

theorem Made.use (h : Made seen e) (agrees : e.language.Agrees seen) {u : Use ρ}
    (hu : ∀ r ∈ requests change e [u], r ∈ seen) : Made seen (use change e u) := by
  cases u with
  | compile now source => exact (h.compileCached agrees (hu _ List.mem_cons_self) now).2
  | invalidate f => exact h.onCache fun c hc => Cache.sheds_invalidate hc f
  | clear => exact h.onCache fun c hc => Cache.sheds_clear hc
  | purge now => exact h.onCache fun c hc => Cache.sheds_purge hc now
  | change r =>
    intro c hc
    rw [Engine.use, adjusts.cache] at hc
    rw [Engine.use, adjusts.language]
    exact h c hc

theorem Made.after (h : Made seen e) (agrees : e.language.Agrees seen) {uses : List (Use ρ)}
    (hu : ∀ r ∈ requests change e uses, r ∈ seen) : Made seen (after change e uses) := by
  induction uses generalizing e with
  | nil => exact h
  | cons u uses ih =>
    have hsplit := requests_append change e [u] uses
    rw [List.singleton_append] at hsplit
    rw [hsplit] at hu
    have hfirst := h.use adjusts agrees fun r hr => hu r (List.mem_append_left _ hr)
    rw [← language_use adjusts e u] at agrees
    exact ih hfirst agrees fun r hr => hu r (List.mem_append_right _ hr)

/-- If the messages of a history have different digests, all that is compiled in it is answered as
without a cache. -/
theorem compileCached_of_separates {s : CacheSettings} (hcache : e.cache = s.cache? α)
    (hp : p e.config)
    (tells : ∀ k k' source source', p k → p k' →
      e.language.message k source = e.language.message k' source' →
        e.language.compile k source = e.language.compile k' source')
    (uses : List (Use ρ)) (now : Nat) (source : String)
    (separates : Sha256.Separates (messages change e (uses ++ [.compile now source]))) :
    ((after change e uses).compileCached now source).1.map (·.map Delivery.artifact) =
      some ((after change e uses).compile source) := by
  let seen := requests change e (uses ++ [.compile now source])
  have hseen : seen = requests change e uses ++ [((after change e uses).config, source)] :=
    requests_append change e uses _
  have agrees : e.language.Agrees seen := by
    intro r hr r' hr' hf
    have hmessage := separates _ (List.mem_map_of_mem hr) _ (List.mem_map_of_mem hr')
      (Fingerprint.ofBytes_eq_iff.mp hf)
    exact tells _ _ _ _ (config_of_mem_requests adjusts hp hr)
      (config_of_mem_requests adjusts hp hr') hmessage
  have hstart : Made seen e := by
    intro c hc
    rw [hcache, CacheSettings.cache?] at hc
    split at hc
    · cases hc
      exact Cache.Made.empty _ _ _ _
    · cases hc
  have hmade : Made seen (after change e uses) := by
    apply hstart.after adjusts agrees
    intro r hr
    rw [hseen]
    exact List.mem_append_left _ hr
  rw [← language_after adjusts e uses] at agrees
  refine (hmade.compileCached agrees ?_ now).1
  rw [hseen]
  exact List.mem_append_right _ List.mem_cons_self

end Run

/-- Whatever came before, a cached compilation is answered with an artifact equal to that of a plain
one, or with the same error, provided that the messages so far have different digests. -/
def Transparent (change : ρ → Engine κ α → Engine κ α) (e : Engine κ α) : Prop :=
  ∀ (uses : List (Use ρ)) (now : Nat) (source : String),
    Sha256.Separates (messages change e (uses ++ [.compile now source])) →
      ((after change e uses).compileCached now source).1.map (·.map Delivery.artifact) =
        some ((after change e uses).compile source)

end Engine

/-! ### Queries and templates -/

namespace Query

theorem adjusts_setup (setup : Setup) :
    Engine.Adjusts (Empty.elim : Empty → QueryEngine → QueryEngine) (· = setup) where
  language r := r.elim
  cache r := r.elim
  config r := r.elim

theorem source_of_message {setup : Setup} {source source' : String}
    (h : language.message setup source = language.message setup source') : source = source' :=
  (Fingerprint.variant_source_inj h (by omega) (by omega)).2

end Query

namespace Template

theorem adjusts_autoescape (extensions : ExtensionTable) :
    Engine.Adjusts (fun b (e : TemplateEngine) => e.withAutoescape b)
      (fun o => o.extensions = extensions) where
  language _ _ := rfl
  cache _ _ := rfl
  config _ _ h := h

theorem length_variant (o : Options) : (Fingerprint.utf8 o.variant).length + o.autoescape.toNat =
    28 + (Fingerprint.utf8 (signature o.extensions)).length := by
  have hmode : (Fingerprint.utf8 (toString o.autoescape)).length + o.autoescape.toNat = 5 := by
    cases o.autoescape <;> decide
  have hfirst : (Fingerprint.utf8 "autoescape=").length = 11 := by decide
  have hsecond : (Fingerprint.utf8 ";extensions=").length = 12 := by decide
  simp only [Options.variant, Fingerprint.utf8_append, List.length_append, hfirst, hsecond]
  omega

theorem options_source_of_message {o o' : Options} {source source' : String}
    (hext : o.extensions = o'.extensions)
    (h : language.message o source = language.message o' source') : o = o' ∧ source = source' := by
  have hencode : Fingerprint.encode compilerVersion "template" o.variant source =
    Fingerprint.encode compilerVersion "template" o'.variant source' := h
  -- the modes differ in length by one, far less than a written length could miss
  have hlen := length_variant o
  have hlen' := length_variant o'
  have hbit := Bool.toNat_le o.autoescape
  have hbit' := Bool.toNat_le o'.autoescape
  rw [hext] at hlen
  obtain ⟨hvariant, hsource⟩ := Fingerprint.variant_source_inj hencode (by omega) (by omega)
  rw [hvariant] at hlen
  have hmode : o.autoescape = o'.autoescape := by
    have hsame : o.autoescape.toNat = o'.autoescape.toNat := by omega
    revert hsame
    cases o.autoescape <;> cases o'.autoescape <;> decide
  refine ⟨?_, hsource⟩
  cases o
  cases o'
  simp only [Options.mk.injEq]
  exact ⟨hext, hmode⟩

end Template

/-- Engines with any cache that settings ask for, or none. -/
theorem compileCached_transparent (s : CacheSettings) :
    (∀ setup : Query.Setup, Engine.Transparent Empty.elim
      (⟨Query.language, setup, s.cache? _⟩ : QueryEngine)) ∧
    ∀ o : Template.Options, Engine.Transparent
      (fun autoescape (e : TemplateEngine) => e.withAutoescape autoescape)
      ⟨Template.language, o, s.cache? _⟩ := by
  constructor
  · intro setup uses now source separates
    refine Engine.compileCached_of_separates (Query.adjusts_setup setup) rfl rfl ?_ uses now source
      separates
    rintro _ _ source source' rfl rfl h
    rw [Query.source_of_message h]
  · intro o uses now source separates
    refine Engine.compileCached_of_separates (Template.adjusts_autoescape o.extensions)
      (e := ⟨Template.language, o, s.cache? _⟩) rfl rfl ?_ uses now source separates
    intro k k' source source' hk hk' h
    obtain ⟨rfl, rfl⟩ := Template.options_source_of_message (hk.trans hk'.symm) h
    rfl

/-- A query after another that fails, and a template once more after the mode has changed. -/
theorem compileCached_transparent_switched :
    let cache : CacheSettings := { capacity := some 1 }
    let setup : Query.Setup := ⟨.empty, .bare "bare" Query.Dialect.doubleQuotes .question⟩
    let queries : QueryEngine := ⟨Query.language, setup, cache.cache? _⟩
    let asked : List (Engine.Use Empty) := [.compile 1 "SELECT", .clear]
    let templates : TemplateEngine := ⟨Template.language, {}, cache.cache? _⟩
    let autoescape := fun b (e : TemplateEngine) => e.withAutoescape b
    let printed : List (Engine.Use Bool) := [.compile 1 "\x7b\x7b x \x7d\x7d", .change false]
    (Sha256.Separates (queries.messages Empty.elim (asked ++ [.compile 2 "SELECT 1"])) ∧
      Sha256.Separates
        (templates.messages autoescape (printed ++ [.compile 2 "\x7b\x7b x \x7d\x7d"]))) ∧
    ((queries.after Empty.elim asked).compileCached 2 "SELECT 1").1.map (·.map Delivery.artifact) =
      some (Query.language.compile setup "SELECT 1") ∧
    ((templates.after autoescape printed).compileCached 2 "\x7b\x7b x \x7d\x7d").1.map
        (·.map Delivery.artifact) =
      some (Template.language.compile { autoescape := false } "\x7b\x7b x \x7d\x7d") := by
  intro cache setup queries asked templates autoescape printed
  have hqueries :
      Sha256.Separates (queries.messages Empty.elim (asked ++ [.compile 2 "SELECT 1"])) := by
    decide +kernel
  have htemplates : Sha256.Separates
      (templates.messages autoescape (printed ++ [.compile 2 "\x7b\x7b x \x7d\x7d"])) := by
    decide +kernel
  refine ⟨⟨hqueries, htemplates⟩, ?_, ?_⟩
  · exact (compileCached_transparent cache).1 setup asked 2 "SELECT 1" hqueries
  · exact (compileCached_transparent cache).2 _ printed 2 _ htemplates

end EmbeddedLang
