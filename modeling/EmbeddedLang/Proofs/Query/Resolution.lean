import EmbeddedLang.Proofs.Returns
import EmbeddedLang.Query.Scope
import Mathlib.Data.List.Forall2
import Mathlib.Data.List.Nodup

/-!
Which source a name is resolved to.

The stack of a place in a statement has the sources of every select around it, innermost first.
-/

namespace EmbeddedLang.Query

abbrev Stack := List (List ScopeSource)

def Scopes.stack (scopes : Scopes) : Stack :=
  scopes.map Scope.sources

/-- A reference to a source of the stack, without its name only if no other source is near. -/
structure Stack.Has (stack : Stack) (r : Reference) : Prop where
  mem : ∃ sources, stack[r.depth]? = some sources ∧ r.source ∈ sources
  bare : r.qualified = false →
    stack[r.depth]? = some [r.source] ∧ r.depth = 0 ∧
      (r.source.table.column? r.column).isSome

/-- No two sources go by one name. -/
def Distinct (sources : List ScopeSource) : Prop :=
  (sources.map (·.reference)).Nodup

theorem Distinct.nodup {sources : List ScopeSource} (h : Distinct sources) : sources.Nodup :=
  List.Nodup.of_map _ h

theorem Distinct.eq_of_reference {sources : List ScopeSource} (h : Distinct sources)
    {x y : ScopeSource} (hx : x ∈ sources) (hy : y ∈ sources) (he : x.reference = y.reference) :
    x = y :=
  List.inj_on_of_nodup_map h hx hy he

/-! ### Sources -/

theorem resolveSources_returns (m : Metadata) (sources : List Source) (known : List ScopeSource)
    (h : Distinct known) :
    Returns (fun found => Distinct found ∧ ∃ more, found = known ++ more ∧
      List.Forall₂ (fun s x => resolveSource m s = .ok x) sources more)
      (resolveSources m known sources) := by
  induction sources generalizing known with
  | nil => exact .ok ⟨h, [], (List.append_nil known).symm, .nil⟩
  | cons s rest ih =>
    rw [resolveSources]
    apply (Returns.self (resolveSource m s)).bind
    intro x hx
    cases hany : known.any (·.reference == x.reference) with
    | true => exact .error _
    | false =>
      have hd : Distinct (known ++ [x]) := by
        unfold Distinct at h ⊢
        rw [List.map_append]
        apply h.append (List.nodup_singleton _)
        intro name hn hx
        obtain ⟨s, hs, rfl⟩ := List.mem_map.mp hn
        have hne := List.any_eq_false.mp hany s hs
        exact hne (beq_iff_eq.mpr (List.mem_singleton.mp hx))
      apply (ih (known ++ [x]) hd).imp
      rintro found ⟨hdf, more, rfl, hmore⟩
      exact ⟨hdf, x :: more, List.append_assoc known [x] more, .cons hx hmore⟩

/-! ### Columns -/

theorem sourceNamed?_mem {reference : String} {scopes : Scopes} {depth d : Nat}
    {source : ScopeSource} (h : scopes.sourceNamed? reference depth = some (d, source)) :
    ∃ k, d = depth + k ∧ ∃ sources, scopes.stack[k]? = some sources ∧ source ∈ sources := by
  induction scopes generalizing depth with
  | nil => cases h
  | cons scope outer ih =>
    rw [Scopes.sourceNamed?] at h
    cases hf : scope.sources.find? (·.reference == reference) with
    | some found =>
      rw [hf] at h
      cases h
      exact ⟨0, rfl, scope.sources, rfl, List.mem_of_find?_eq_some hf⟩
    | none =>
      rw [hf] at h
      obtain ⟨k, rfl, sources, hk, hs⟩ := ih h
      exact ⟨k + 1, by omega, sources, hk, hs⟩

theorem meaning_mem {name : String} {scopes : Scopes} {depth : Nat} {r : Reference}
    (h : scopes.meaning name depth = .column r) :
    ∃ k, r.depth = depth + k ∧ (∃ sources, scopes.stack[k]? = some sources ∧ r.source ∈ sources) ∧
      (r.qualified = false → scopes.stack[k]? = some [r.source] ∧ r.depth = 0 ∧
        (r.source.table.column? r.column).isSome) := by
  induction scopes generalizing depth with
  | nil => cases h
  | cons scope outer ih =>
    rw [Scopes.meaning] at h
    have hmem : ∀ s, scope.holders name = [s] →
        s ∈ scope.sources ∧ (s.table.column? name).isSome := by
      intro s hs
      apply List.mem_filter.mp
      change s ∈ scope.holders name
      rw [hs]
      exact List.mem_singleton_self s
    split at h
    · split at h
      · cases h
      · obtain ⟨k, hk, hrest⟩ := ih h
        exact ⟨k + 1, by omega, hrest⟩
    · rename_i source hs
      obtain ⟨hin, hcolumn⟩ := hmem source hs
      cases h
      refine ⟨0, rfl, ⟨scope.sources, rfl, hin⟩, ?_⟩
      intro hq
      obtain ⟨hdepth, hlength⟩ := Bool.or_eq_false_iff.mp hq
      have hd : depth = 0 := by simpa using hdepth
      have hl : scope.sources.length ≤ 1 := by simpa using hlength
      refine ⟨?_, hd, hcolumn⟩
      obtain ⟨s, hsources⟩ : ∃ s, scope.sources = [s] := by
        apply List.length_eq_one_iff.mp
        have := List.length_pos_of_mem hin
        omega
      rw [hsources, List.mem_singleton] at hin
      change some scope.sources = _
      rw [hsources, hin]
    · cases h

theorem Scopes.has_of_meaning {name : String} {scopes : Scopes} {r : Reference}
    (h : scopes.meaning name 0 = .column r) : scopes.stack.Has r := by
  obtain ⟨k, hk, hmem, hbare⟩ := meaning_mem h
  rw [Nat.zero_add] at hk
  subst hk
  exact ⟨hmem, hbare⟩

theorem Scopes.has_of_sourceNamed? {reference : String} {scopes : Scopes} {depth : Nat}
    {source : ScopeSource} (h : scopes.sourceNamed? reference 0 = some (depth, source))
    (column : String) : scopes.stack.Has ⟨depth, source, true, column⟩ := by
  obtain ⟨k, hk, hmem⟩ := sourceNamed?_mem h
  rw [Nat.zero_add] at hk
  subst hk
  exact ⟨hmem, fun h => Bool.noConfusion h⟩

end EmbeddedLang.Query
