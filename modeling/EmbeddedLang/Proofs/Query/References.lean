import EmbeddedLang.Proofs.Query.Numbering
import EmbeddedLang.Proofs.Query.Traversal

/-!
Which source SQL takes a column from.

SQL goes from the innermost select outwards. A name before a column belongs to the first select that
reads exactly one source under it, and a column alone to the first select with a source that has it.
-/

namespace EmbeddedLang.Query

/-- A column in SQL, with the sources of the selects and changes around it, innermost first. -/
structure Occurrence where
  levels : Stack
  reference : Reference

namespace Fragment

/-- The sources up to the end of the select or change ahead of which `depth` have begun, but for
those of the selects in it. -/
def sources : Nat → Fragment → List ScopeSource
  | _, [] => []
  | depth, .enter :: rest => sources (depth + 1) rest
  | 0, .leave :: _ => []
  | depth + 1, .leave :: rest => sources depth rest
  | 0, .source _ s :: rest => s :: sources 0 rest
  | depth, _ :: rest => sources depth rest

def occurrences (levels : Stack) : Fragment → List Occurrence
  | [] => []
  | .enter :: rest => occurrences (sources 0 rest :: levels) rest
  | .leave :: rest => occurrences levels.tail rest
  | .column _ r :: rest => ⟨levels, r⟩ :: occurrences levels rest
  | _ :: rest => occurrences levels rest

/-- All that is entered is left again, and what is read outside of it is `xs`. -/
structure Balanced (xs : List ScopeSource) (f : Fragment) : Prop where
  occurrences : ∀ levels rest,
    occurrences levels (f ++ rest) = occurrences levels f ++ occurrences levels rest
  outermost : ∀ rest, sources 0 (f ++ rest) = xs ++ sources 0 rest
  deeper : ∀ depth rest, sources (depth + 1) (f ++ rest) = sources (depth + 1) rest

theorem Balanced.append {xs ys : List ScopeSource} {f g : Fragment} (hf : Balanced xs f)
    (hg : Balanced ys g) : Balanced (xs ++ ys) (f ++ g) where
  occurrences levels rest := by
    rw [List.append_assoc, hf.occurrences, hg.occurrences, hf.occurrences, List.append_assoc]
  outermost rest := by
    rw [List.append_assoc, hf.outermost, hg.outermost, List.append_assoc]
  deeper depth rest := by
    rw [List.append_assoc, hf.deeper, hg.deeper]

theorem enclosed_append (f rest : Fragment) :
    enclosed f ++ rest = .enter :: (f ++ .leave :: rest) := by
  unfold enclosed
  rw [List.cons_append, List.cons_append, List.append_assoc]
  rfl

theorem occurrences_enclosed {xs : List ScopeSource} {f : Fragment} (hf : Balanced xs f)
    (levels : Stack) (rest : Fragment) :
    occurrences levels (enclosed f ++ rest) =
      occurrences (xs :: levels) f ++ occurrences levels rest := by
  have hsources : sources 0 (f ++ .leave :: rest) = xs := by
    rw [hf.outermost]
    exact List.append_nil xs
  rw [enclosed_append, Fragment.occurrences, hsources, hf.occurrences]
  rfl

theorem Balanced.enclosed {xs : List ScopeSource} {f : Fragment} (hf : Balanced xs f) :
    Balanced [] (enclosed f) where
  occurrences levels rest := by
    have hn := occurrences_enclosed hf levels []
    rw [List.append_nil, Fragment.occurrences, List.append_nil] at hn
    rw [occurrences_enclosed hf, hn]
  outermost rest := by
    rw [enclosed_append, sources, hf.deeper]
    rfl
  deeper depth rest := by
    rw [enclosed_append, sources, hf.deeper]
    rfl

/-- A fragment without columns, sources and selects. -/
structure Quiet (f : Fragment) : Prop where
  occurrences : ∀ levels rest, occurrences levels (f ++ rest) = occurrences levels rest
  sources : ∀ depth rest, sources depth (f ++ rest) = sources depth rest

theorem Quiet.occurrences_eq_nil {f : Fragment} (h : Quiet f) (levels : Stack) :
    f.occurrences levels = [] := by
  have hf := h.occurrences levels []
  rwa [List.append_nil] at hf

theorem Quiet.balanced {f : Fragment} (h : Quiet f) : Balanced [] f where
  occurrences levels rest := by
    rw [h.occurrences, h.occurrences_eq_nil, List.nil_append]
  outermost := h.sources 0
  deeper depth := h.sources (depth + 1)

theorem quiet_nil : Quiet [] :=
  ⟨fun _ _ => rfl, fun _ _ => rfl⟩

theorem quiet_word (s : String) : Quiet [.text s] :=
  ⟨fun _ _ => rfl, fun depth _ => by cases depth <;> rfl⟩

theorem quiet_text (s : String) : Quiet (text s) := by
  unfold text
  split
  · exact quiet_nil
  · exact quiet_word s

theorem quiet_name (q : Quotes) (identifier : String) : Quiet (name q identifier) :=
  ⟨fun _ _ => rfl, fun depth _ => by cases depth <;> rfl⟩

theorem quiet_bind (source : BindSource) (type : Option ColumnType) : Quiet (bind source type) :=
  ⟨fun _ _ => rfl, fun depth _ => by cases depth <;> rfl⟩

end Fragment

/-- The only source with `p` of the innermost level that has any. -/
def innermost? (p : ScopeSource → Bool) (depth : Nat) : Stack → Option (Nat × ScopeSource)
  | [] => none
  | sources :: outer =>
    match sources.filter p with
    | [] => innermost? p (depth + 1) outer
    | [source] => some (depth, source)
    | _ => none

theorem innermost?_eq_some_iff {p : ScopeSource → Bool} {depth d : Nat} {levels : Stack}
    {source : ScopeSource} :
    innermost? p depth levels = some (d, source) ↔ ∃ k, d = depth + k ∧
      (∃ sources, levels[k]? = some sources ∧ sources.filter p = [source]) ∧
      ∀ i < k, ∀ sources, levels[i]? = some sources → sources.filter p = [] := by
  induction levels generalizing depth with
  | nil => simp [innermost?]
  | cons sources outer ih =>
    rw [innermost?]
    constructor
    · intro h
      split at h
      · rename_i hnone
        obtain ⟨k, rfl, hk, hnearer⟩ := ih.mp h
        refine ⟨k + 1, by omega, hk, ?_⟩
        intro i hi level hl
        cases i with
        | zero =>
          cases hl
          exact hnone
        | succ i => exact hnearer i (by omega) level hl
      · rename_i hone
        cases h
        exact ⟨0, rfl, ⟨sources, rfl, hone⟩, by omega⟩
      · cases h
    · rintro ⟨k, rfl, ⟨level, hl, hone⟩, hnearer⟩
      cases k with
      | zero =>
        cases hl
        rw [hone]
        rfl
      | succ k =>
        rw [hnearer 0 (by omega) sources rfl]
        apply ih.mpr
        refine ⟨k, by omega, ⟨level, hl, hone⟩, ?_⟩
        intro i hi level hl
        exact hnearer (i + 1) (by omega) level hl

namespace Occurrence

/-- The source that SQL takes the column from, and how far out it is. -/
def owner? (o : Occurrence) : Option (Nat × ScopeSource) :=
  let r := o.reference
  if r.qualified then innermost? (·.qualifier == r.source.qualifier) 0 o.levels
  else innermost? (fun s => (s.table.column? r.column).isSome) 0 o.levels

/-- SQL takes the column from where the translation has found it. -/
def Denotes (o : Occurrence) : Prop :=
  o.owner?.map (fun found => (found.1, found.2.unaliased)) =
    some (o.reference.depth, o.reference.source.unaliased)

instance (o : Occurrence) : Decidable o.Denotes :=
  inferInstanceAs (Decidable (_ = _))

/-- Why SQL may take the column from elsewhere. -/
inductive Hidden (o : Occurrence) : Prop where
  /-- The source is the target of an insertion, which SQL does not read. -/
  | outside (h : o.levels.length ≤ o.reference.depth)
  /-- The source is the target of a change, which SQL does not know by the alias it has. -/
  | renamed (hq : o.reference.qualified)
      (h : o.levels[o.reference.depth]? = some [o.reference.source.unaliased])
      (hne : o.reference.source.qualifier ≠ o.reference.source.table.table)
  /-- Another source goes by the same name beside it. -/
  | doubled (hq : o.reference.qualified) {sources : List ScopeSource} {other : ScopeSource}
      (h : o.levels[o.reference.depth]? = some sources) (ho : other ∈ sources)
      (hne : other.reference ≠ o.reference.source.reference)
      (hname : other.qualifier = o.reference.source.qualifier)
  /-- Another source goes by the same name nearer to the column. -/
  | shadowed (hq : o.reference.qualified) {i : Nat} {sources : List ScopeSource}
      {other : ScopeSource} (hi : i < o.reference.depth) (h : o.levels[i]? = some sources)
      (ho : other ∈ sources) (hname : other.qualifier = o.reference.source.qualifier)

end Occurrence

/-! ### The levels of SQL and the stack of the translation

Both have the same selects, and differ outside of them. -/

/-- What a statement has around its outermost selects, for the translation and for SQL. -/
inductive Ground : Stack → Stack → Prop where
  | select : Ground [] []
  | change (target : ScopeSource) : Ground [[target]] [[target.unaliased]]
  | insertion (target : ScopeSource) : Ground [[target]] []

namespace Occurrence

def Placed (stack levels : Stack) (o : Occurrence) : Prop :=
  ∃ inner : Stack, (∀ sources ∈ inner, Distinct sources) ∧ o.levels = inner ++ levels ∧
    (inner ++ stack).Has o.reference

variable {stack levels : Stack} {o : Occurrence}

/-- Where SQL has a level that far out, it is the one that the translation has. -/
theorem Placed.level (hg : Ground stack levels) (h : o.Placed stack levels)
    {sources : List ScopeSource} (hs : o.levels[o.reference.depth]? = some sources) :
    (Distinct sources ∧ o.reference.source ∈ sources ∧
      (o.reference.qualified = false → sources = [o.reference.source])) ∨
      sources = [o.reference.source.unaliased] := by
  obtain ⟨inner, hd, hlevels, hmem, hbare⟩ := h
  rw [hlevels] at hs
  by_cases hi : o.reference.depth < inner.length
  · left
    rw [List.getElem?_append_left hi] at hs
    rw [List.getElem?_append_left hi, hs] at hmem hbare
    obtain ⟨_, heq, hin⟩ := hmem
    cases heq
    exact ⟨hd sources (List.mem_of_getElem? hs), hin, fun hq => Option.some.inj (hbare hq).1⟩
  · right
    rw [List.getElem?_append_right (Nat.le_of_not_lt hi)] at hs hmem
    obtain ⟨found, hfound, hin⟩ := hmem
    cases hg with
    | select => cases hs
    | insertion target => cases hs
    | change target =>
      generalize o.reference.depth - inner.length = k at hs hfound
      cases k with
      | succ k => cases hs
      | zero =>
        cases hs
        cases hfound
        rw [List.mem_singleton.mp hin]

theorem denotes_iff {found : ScopeSource} (h : o.owner? = some (o.reference.depth, found)) :
    o.Denotes ↔ found.unaliased = o.reference.source.unaliased := by
  unfold Denotes
  rw [h]
  simp

theorem not_denotes (h : o.owner? = none) : ¬ o.Denotes := by
  unfold Denotes
  rw [h]
  simp

/-! ### Columns alone -/

theorem bare_denotes_iff (hg : Ground stack levels) (h : o.Placed stack levels)
    (hq : o.reference.qualified = false) : o.Denotes ↔ ¬ o.Hidden := by
  have ⟨_, _, _, hhas⟩ := h
  obtain ⟨_, hdepth, hcolumn⟩ := hhas.bare hq
  have howner : o.owner? =
      innermost? (fun s => (s.table.column? o.reference.column).isSome) 0 o.levels := by
    unfold owner?
    simp [hq]
  cases hs : o.levels[o.reference.depth]? with
  | none =>
    rw [hdepth] at hs
    have hnil : o.levels = [] := by
      apply List.length_eq_zero_iff.mp
      exact Nat.le_zero.mp (List.getElem?_eq_none_iff.mp hs)
    rw [hnil] at howner
    have hhidden : o.Hidden := .outside (by simp [hnil])
    exact iff_of_false (not_denotes howner) (not_not_intro hhidden)
  | some sources =>
    obtain ⟨found, rfl, hsame⟩ : ∃ found, sources = [found] ∧
        found.unaliased = o.reference.source.unaliased := by
      rcases h.level hg hs with ⟨_, _, hone⟩ | hone
      · exact ⟨_, hone hq, rfl⟩
      · exact ⟨_, hone, rfl⟩
    have htable := (ScopeSource.unaliased_eq_iff.mp hsame).2
    have hone : o.owner? = some (o.reference.depth, found) := by
      rw [howner]
      apply innermost?_eq_some_iff.mpr
      refine ⟨o.reference.depth, by omega, ⟨[found], hs, ?_⟩, by omega⟩
      simp [htable, hcolumn]
    apply iff_of_true ((denotes_iff hone).mpr hsame)
    intro hhidden
    cases hhidden with
    | outside hle =>
      have hlt := (List.getElem?_eq_some_iff.mp hs).1
      omega
    | renamed hq' => simp [hq] at hq'
    | doubled hq' => simp [hq] at hq'
    | shadowed hq' => simp [hq] at hq'

/-! ### Columns after the name of their source -/

theorem filter_eq_singleton {p : ScopeSource → Bool} {sources : List ScopeSource}
    {source : ScopeSource} (hd : sources.Nodup) (hin : source ∈ sources) (hp : p source)
    (hone : ∀ other ∈ sources, p other → other = source) : sources.filter p = [source] := by
  have hmem : ∀ other, other ∈ sources.filter p ↔ other ∈ [source] := by
    intro other
    rw [List.mem_filter, List.mem_singleton]
    constructor
    · rintro ⟨ho, hpo⟩
      exact hone other ho hpo
    · rintro rfl
      exact ⟨hin, hp⟩
  have hperm : (sources.filter p).Perm [source] :=
    (List.perm_ext_iff_of_nodup (hd.filter p) (List.nodup_singleton source)).mpr hmem
  exact List.perm_singleton.mp hperm

theorem qualified_denotes_iff (hg : Ground stack levels) (h : o.Placed stack levels)
    (hq : o.reference.qualified = true) : o.Denotes ↔ ¬ o.Hidden := by
  have howner : o.owner? =
      innermost? (·.qualifier == o.reference.source.qualifier) 0 o.levels := by
    unfold owner?
    simp [hq]
  constructor
  · -- what the owner's level and those nearer read rules out each way of being hidden
    intro hdenotes
    obtain ⟨⟨d, found⟩, hfound, heq⟩ := Option.map_eq_some_iff.mp hdenotes
    obtain ⟨rfl, hsame⟩ := Prod.mk.inj heq
    rw [howner] at hfound
    obtain ⟨k, hk, ⟨sources, hs, hone⟩, hnearer⟩ := innermost?_eq_some_iff.mp hfound
    have hk' : k = o.reference.depth := by simpa using hk.symm
    subst hk'
    have hin : found ∈ sources.filter (·.qualifier == o.reference.source.qualifier) := by
      rw [hone]
      exact List.mem_singleton_self found
    have hname : found.qualifier = o.reference.source.qualifier := by
      simpa using (List.mem_filter.mp hin).2
    have hreference := (ScopeSource.unaliased_eq_iff.mp hsame).1
    have hmatch {near : List ScopeSource} {other : ScopeSource} (ho : other ∈ near)
        (hn : other.qualifier = o.reference.source.qualifier) :
        other ∈ near.filter (·.qualifier == o.reference.source.qualifier) :=
      List.mem_filter.mpr ⟨ho, beq_iff_eq.mpr hn⟩
    intro hhidden
    cases hhidden with
    | outside hle =>
      have hlt := (List.getElem?_eq_some_iff.mp hs).1
      omega
    | renamed _ hs' hne =>
      rw [hs] at hs'
      cases hs'
      have hunaliased := List.mem_singleton.mp (List.mem_filter.mp hin).1
      rw [hunaliased] at hname
      exact hne hname.symm
    | doubled _ hs' ho hne hname' =>
      rw [hs] at hs'
      cases hs'
      have hother := hmatch ho hname'
      rw [hone] at hother
      rw [List.mem_singleton.mp hother] at hne
      exact hne hreference
    | shadowed _ hi hs' ho hname' =>
      have hother := hmatch ho hname'
      rw [hnearer _ hi _ hs'] at hother
      cases hother
  · -- nothing nearer has the name, and at its own level nothing else has it
    intro hhidden
    cases hs : o.levels[o.reference.depth]? with
    | none => exact absurd (.outside (List.getElem?_eq_none_iff.mp hs)) hhidden
    | some sources =>
      have hnearer : ∀ i < o.reference.depth, ∀ near, o.levels[i]? = some near →
          near.filter (·.qualifier == o.reference.source.qualifier) = [] := by
        intro i hi near hnear
        apply List.filter_eq_nil_iff.mpr
        intro other ho hname
        exact hhidden (.shadowed hq hi hnear ho (beq_iff_eq.mp hname))
      obtain ⟨found, hone, hsame⟩ : ∃ found,
          sources.filter (·.qualifier == o.reference.source.qualifier) = [found] ∧
            found.unaliased = o.reference.source.unaliased := by
        rcases h.level hg hs with ⟨hd, hin, _⟩ | rfl
        · refine ⟨_, filter_eq_singleton hd.nodup hin (beq_self_eq_true _) ?_, rfl⟩
          intro other ho hname
          apply hd.eq_of_reference ho hin
          by_contra hne
          exact hhidden (.doubled hq hs ho hne (beq_iff_eq.mp hname))
        · refine ⟨o.reference.source.unaliased, ?_, rfl⟩
          have hname : o.reference.source.qualifier = o.reference.source.table.table := by
            by_contra hne
            exact hhidden (.renamed hq hs hne)
          simp [hname]
      have howns : o.owner? = some (o.reference.depth, found) := by
        rw [howner]
        apply innermost?_eq_some_iff.mpr
        exact ⟨o.reference.depth, by omega, ⟨sources, hs, hone⟩, hnearer⟩
      exact (denotes_iff howns).mpr hsame

theorem Placed.denotes_iff (hg : Ground stack levels) (h : o.Placed stack levels) :
    o.Denotes ↔ ¬ o.Hidden := by
  cases hq : o.reference.qualified with
  | false => exact bare_denotes_iff hg h hq
  | true => exact qualified_denotes_iff hg h hq

end Occurrence

/-! ### Statements -/

namespace Fragment

/-- Columns that are placed, in a fragment that has selects `inner` around it and reads `xs`. -/
structure Places (stack levels inner : Stack) (xs : List ScopeSource) (f : Fragment) : Prop where
  balanced : f.Balanced xs
  placed : ∀ o ∈ f.occurrences (inner ++ levels), o.Placed stack levels

variable {stack levels inner : Stack} {xs ys : List ScopeSource} {f g : Fragment}

theorem Quiet.places (h : Quiet f) : f.Places stack levels inner [] where
  balanced := h.balanced
  placed := by
    rw [h.occurrences_eq_nil]
    exact List.forall_mem_nil _

theorem Places.append (hf : f.Places stack levels inner xs)
    (hg : g.Places stack levels inner ys) : (f ++ g).Places stack levels inner (xs ++ ys) where
  balanced := hf.balanced.append hg.balanced
  placed := by
    rw [hf.balanced.occurrences]
    exact List.forall_mem_append.mpr ⟨hf.placed, hg.placed⟩

theorem Places.enclosed (hf : f.Places stack levels (xs :: inner) xs) :
    (enclosed f).Places stack levels inner [] where
  balanced := hf.balanced.enclosed
  placed := by
    have ho := occurrences_enclosed hf.balanced (inner ++ levels) []
    rw [List.append_nil, Fragment.occurrences, List.append_nil] at ho
    rw [ho]
    exact hf.placed

theorem source_places (q : Quotes) (x : ScopeSource) :
    (source q x).Places stack levels inner [x] where
  balanced := ⟨fun _ _ => rfl, fun _ => rfl, fun _ _ => rfl⟩
  placed := List.forall_mem_nil _

theorem column_places (hd : ∀ sources ∈ inner, Distinct sources) {r : Reference}
    (hr : (inner ++ stack).Has r) (q : Quotes) :
    (column q r).Places stack levels inner [] where
  balanced := ⟨fun _ _ => rfl, fun _ => rfl, fun _ _ => rfl⟩
  placed o ho := by
    cases List.mem_singleton.mp ho
    exact ⟨inner, hd, rfl, hr⟩

end Fragment

open Fragment in
/-- Translation places every column, in a dialect that reads all sources. -/
def Target.placing {t : Target} (hj : t.dialect.JoinsOnce) (stack levels : Stack) :
    t.Invariant where
  joinsOnce := hj
  Holds around xs f := ∀ inner, (∀ sources ∈ inner, Distinct sources) → around = inner ++ stack →
    f.Places stack levels inner xs
  Admits _ := True
  Free _ := True
  free _ _ := trivial
  negated _ := .inl trivial
  nil _ _ _ _ := quiet_nil.places
  append hf hg inner hd ha := (hf inner hd ha).append (hg inner hd ha)
  word _ _ _ _ _ := (quiet_word _).places
  template _ _ _ _ _ _ _ := (quiet_text _).places
  name _ _ _ _ _ := (quiet_name _ _).places
  source _ x _ _ _ := source_places _ x
  column hr inner hd ha := column_places hd (ha ▸ hr) _
  bind _ _ _ _ _ _ := (quiet_bind _ _).places
  cast hf _ inner hd ha :=
    ((((quiet_text _).places.append (hf inner hd ha)).append (quiet_text _).places).append
      (quiet_text _).places).append (quiet_text _).places
  enclosed hs hf inner hd ha := by
    apply Places.enclosed
    apply hf (_ :: inner) (List.forall_mem_cons.mpr ⟨hs, hd⟩)
    rw [ha, List.cons_append]

/-- The columns of a statement are placed on one of the grounds. -/
def Fragment.Grounded (s : Statement) (f : Fragment) : Prop :=
  ∃ stack levels, Ground stack levels ∧ (stack.length ≠ levels.length → ∃ i, s = .insert i) ∧
    ∀ o ∈ f.occurrences [], o.Placed stack levels

theorem change_grounded {s : Statement} {target : ScopeSource} {body : Fragment}
    (h : body.Places [[target]] [[target.unaliased]] [] [target.unaliased]) :
    body.enclosed.Grounded s := by
  refine ⟨_, _, .change target, fun hne => absurd rfl hne, ?_⟩
  have ho := Fragment.occurrences_enclosed h.balanced [] []
  rw [List.append_nil, Fragment.occurrences, List.append_nil] at ho
  rw [ho]
  exact h.placed

theorem Target.statement_grounded {t : Target} (hj : t.dialect.JoinsOnce) {s : Statement}
    {f : Fragment} (h : t.statement s = .ok f) : f.Grounded s := by
  have hall (stack levels : Stack) (es : List Expr) : (placing hj stack levels).Admitted es :=
    fun _ _ => trivial
  cases s with
  | select s =>
    have hs := ((placing hj [] []).select [] s (hall [] [] _)).of_ok f h
    exact ⟨[], [], .select, fun hne => absurd rfl hne, (hs [] (List.forall_mem_nil _) rfl).placed⟩
  | insert s =>
    obtain ⟨target, htarget, _⟩ := ((placing hj [] []).insert s (hall [] [] _)).of_ok f h
    obtain ⟨_, htarget', hs⟩ :=
      ((placing hj [[target]] []).insert s (hall [[target]] [] _)).of_ok f h
    cases htarget.symm.trans htarget'
    exact ⟨_, _, .insertion target, fun _ => ⟨s, rfl⟩, (hs [] (List.forall_mem_nil _) rfl).placed⟩
  | update s =>
    obtain ⟨target, htarget, _⟩ := ((placing hj [] []).update s (hall [] [] _)).of_ok f h
    obtain ⟨_, htarget', body, rfl, hs⟩ := ((placing hj [[target]] [[target.unaliased]]).update s
      (hall [[target]] [[target.unaliased]] _)).of_ok f h
    cases htarget.symm.trans htarget'
    exact change_grounded (hs [] (List.forall_mem_nil _) rfl)
  | delete s =>
    obtain ⟨target, htarget, _⟩ := ((placing hj [] []).delete s (hall [] [] _)).of_ok f h
    obtain ⟨_, htarget', body, rfl, hs⟩ := ((placing hj [[target]] [[target.unaliased]]).delete s
      (hall [[target]] [[target.unaliased]] _)).of_ok f h
    cases htarget.symm.trans htarget'
    exact change_grounded (hs [] (List.forall_mem_nil _) rfl)
  | empty =>
    cases h
    exact ⟨[], [], .select, fun hne => absurd rfl hne, List.forall_mem_nil _⟩

theorem Occurrence.Placed.lt_length {stack levels : Stack} {o : Occurrence}
    (h : o.Placed stack levels) (hl : stack.length = levels.length) :
    o.reference.depth < o.levels.length := by
  obtain ⟨inner, _, hlevels, ⟨_, hs, _⟩, _⟩ := h
  have hlt := (List.getElem?_eq_some_iff.mp hs).1
  rw [List.length_append] at hlt
  rw [hlevels, List.length_append]
  omega

/-- Authors that have written a book. -/
def published : Statement :=
  let p : Position := .start
  let books : Select := ⟨false, [⟨.identifier p "title", none⟩], [⟨"Book", none, p⟩], [],
    some (.binary p .eq (.identifier p "author") (.member p (.identifier p "a") "name")), [],
    none, [], none, p⟩
  .select ⟨false, [⟨.identifier p "name", none⟩], [⟨"Author", some "a", p⟩], [],
    some (.existence p books), [], none, [], none, p⟩

/-- Books under the name of the table of their authors. -/
def misnamed : Statement :=
  let p : Position := .start
  let author : Expr := .member p (.identifier p "Author") "name"
  .select ⟨false, [⟨author, none⟩], [⟨"Author", none, p⟩],
    [⟨.inner, ⟨"Book", some "authors", p⟩,
      some (.binary p .eq (.member p (.identifier p "authors") "author") author), p⟩],
    none, [], none, [], none, p⟩

end EmbeddedLang.Query
