import EmbeddedLang.Proofs.Value.Ordered
import EmbeddedLang.Render.Evaluation

/-!
Filters and functions that make ordered values of ordered values, as all the usual ones do.
-/

namespace EmbeddedLang.Render

open Value

structure Arguments.IsOrdered (args : Arguments) : Prop where
  positional : ∀ v ∈ args.positional, v.IsOrdered
  named : OrderedFields args.named

namespace Arguments.IsOrdered

theorem empty : Arguments.empty.IsOrdered :=
  ⟨nofun, .nil⟩

theorem add {args : Arguments} (h : args.IsOrdered) (label : Option String) {v : Value}
    (hv : v.IsOrdered) : (args.add label v).IsOrdered := by
  cases label with
  | none =>
    exact ⟨List.forall_mem_append.mpr ⟨h.positional, List.forall_mem_singleton.mpr hv⟩, h.named⟩
  | some name => exact ⟨h.positional, h.named.put name hv⟩

theorem get? {args : Arguments} (h : args.IsOrdered) (index : Nat) (name : String) :
    ∀ v ∈ args.get? index name, v.IsOrdered := by
  intro v hv
  unfold Arguments.get? at hv
  cases hnamed : Dictionary.get? name args.named with
  | some w =>
    rw [hnamed] at hv
    cases hv
    exact h.named.get? name v hnamed
  | none =>
    rw [hnamed] at hv
    exact h.positional v (List.mem_of_getElem? hv)

end Arguments.IsOrdered

theorem isOrdered_toArguments {found : List (Option String × Value)}
    (h : ∀ x ∈ found, x.2.IsOrdered) : (Surroundings.toArguments found).IsOrdered := by
  have hfrom (args : Arguments) (hargs : args.IsOrdered) :
      (found.foldl (fun args x => args.add x.1 x.2) args).IsOrdered := by
    induction found generalizing args with
    | nil => exact hargs
    | cons x rest ih =>
      obtain ⟨hx, hrest⟩ := List.forall_mem_cons.mp h
      exact ih hrest _ (hargs.add x.1 hx)
  exact hfrom .empty .empty

/-- Of ordered values, filters and functions make ordered values. -/
structure Renderer.IsOrdered (r : Renderer) : Prop where
  filters : ∀ f ∈ r.filters, ∀ v args, v.IsOrdered → args.IsOrdered →
    Returns Value.IsOrdered (f.2 v args)
  functions : ∀ f ∈ r.functions, ∀ args, args.IsOrdered → Returns Value.IsOrdered (f.2 args)

/-! ### The usual filters -/

theorem returns_items {v : Value} (h : v.IsOrdered) (filter : String) :
    Returns (fun items => ∀ w ∈ items, w.IsOrdered) (array? filter v) := by
  unfold array?
  split
  · exact .ok h.items
  · exact .error _

theorem returns_needsString (filter : String) (f : List Char → List Char) (v : Value)
    (args : Arguments) : Returns IsOrdered (needsString filter f v args) := by
  unfold needsString
  split
  · exact .ok (.string _)
  · exact .error _

theorem isOrdered_characterOrNull (c : Option Char) : (characterOrNull c).IsOrdered := by
  cases c with
  | none => exact .null
  | some c => exact .string _

theorem returns_length (v : Value) (args : Arguments) : Returns IsOrdered (length v args) := by
  unfold length
  split
  · exact .ok (.number _)
  · exact .error _

theorem returns_default {v : Value} (h : v.IsOrdered) {args : Arguments} (hargs : args.IsOrdered) :
    Returns IsOrdered (default v args) := by
  refine .ok ?_
  split
  · exact h
  · exact .getD (hargs.get? 0 "value")

theorem returns_first {v : Value} (h : v.IsOrdered) (args : Arguments) :
    Returns IsOrdered (first v args) := by
  unfold first
  split
  · exact .ok (isOrdered_characterOrNull _)
  · exact (returns_items h _).bind fun items hitems => .pure <| .getD fun w hw =>
      hitems w (List.mem_of_head? hw)

theorem returns_last {v : Value} (h : v.IsOrdered) (args : Arguments) :
    Returns IsOrdered (last v args) := by
  unfold last
  split
  · exact .ok (isOrdered_characterOrNull _)
  · exact (returns_items h _).bind fun items hitems => .pure <| .getD fun w hw =>
      hitems w (List.mem_of_getLast? hw)

theorem returns_keys (v : Value) (args : Arguments) : Returns IsOrdered (keys v args) := by
  unfold keys
  split
  · exact .ok (.array (List.forall_mem_map.mpr fun _ _ => .string _))
  · exact .ok (.array (List.forall_mem_map.mpr fun _ _ => .number _))
  · exact .error _

theorem returns_sort {v : Value} (h : v.IsOrdered) (args : Arguments) :
    Returns IsOrdered (sort v args) :=
  (returns_items h _).bind fun _ hitems => .pure <| .array fun w hw =>
    hitems w ((sortList_perm _).mem_iff.mp hw)

theorem returns_reverse {v : Value} (h : v.IsOrdered) (args : Arguments) :
    Returns IsOrdered (reverse v args) := by
  unfold reverse
  split
  · exact .ok (.string _)
  · exact (returns_items h _).bind fun items hitems => .pure <| .array fun w hw =>
      hitems w (List.mem_reverse.mp hw)

theorem returns_abs (v : Value) (args : Arguments) : Returns IsOrdered (abs v args) := by
  unfold abs
  split
  · split
    · exact .ok (.number _)
    · exact .ok (isOrdered_ofFloat _)
  · exact .ok (isOrdered_ofFloat _)
  · exact .error _

/-! ### The usual functions -/

theorem returns_rangeFunction (args : Arguments) : Returns IsOrdered (rangeFunction args) := by
  refine (Returns.self _).bind fun bounds _ => ?_
  dsimp only
  split
  · exact .error _
  · exact returns_integerRange _ _ _

theorem returns_extreme (wanted : Ordering) {args : Arguments} (hargs : args.IsOrdered) :
    Returns IsOrdered (extreme wanted args) := by
  have hfrom (best : Value) (hbest : best.IsOrdered) (more : List Value)
      (hmore : ∀ v ∈ more, v.IsOrdered) : Returns IsOrdered (extremeFrom wanted best more) := by
    induction more generalizing best with
    | nil => exact .ok hbest
    | cons v rest ih =>
      obtain ⟨hv, hrest⟩ := List.forall_mem_cons.mp hmore
      unfold extremeFrom
      split
      · split
        · exact ih v hv hrest
        · exact ih best hbest hrest
      · exact .error _
  have hchoices : ∀ v ∈ choices args.positional, v.IsOrdered := by
    unfold choices
    split
    · next items hpositional =>
      exact (hargs.positional (.array items) (hpositional ▸ List.mem_cons_self)).items
    · exact hargs.positional
  unfold extreme
  split
  · exact .ok .null
  · next hchosen =>
    rw [hchosen] at hchoices
    obtain ⟨hv, hrest⟩ := List.forall_mem_cons.mp hchoices
    exact hfrom _ hv _ hrest

theorem returns_inArray (args : Arguments) : Returns IsOrdered (inArray args) := by
  unfold inArray
  split
  · exact .ok (.boolean _)
  · exact .error _

theorem isOrdered_standard : Renderer.standard.IsOrdered := by
  constructor
  · intro f hf v args hv hargs
    have hf := Dictionary.mem_of_mem_ofList hf
    simp only [List.mem_cons, List.not_mem_nil, or_false] at hf
    rcases hf with rfl | rfl | rfl | rfl | rfl | rfl | rfl | rfl | rfl | rfl | rfl | rfl | rfl | rfl |
      rfl | rfl | rfl | rfl | rfl | rfl | rfl | rfl | rfl
    all_goals dsimp only
    -- most filters show a value, or change a text
    all_goals first
      | exact .ok (.string _)
      | exact returns_needsString _ _ _ _
      | skip
    · exact .ok hv
    · exact returns_length _ _
    · exact returns_default hv hargs
    · exact (Returns.self _).bind fun _ _ => .pure (.string _)
    · exact returns_first hv _
    · exact returns_last hv _
    · exact returns_keys _ _
    · exact returns_sort hv _
    · exact returns_reverse hv _
    · exact returns_abs _ _
  · intro f hf args hargs
    have hf := Dictionary.mem_of_mem_ofList hf
    simp only [List.mem_cons, List.not_mem_nil, or_false] at hf
    rcases hf with rfl | rfl | rfl | rfl
    · exact returns_rangeFunction args
    · exact returns_extreme _ hargs
    · exact returns_extreme _ hargs
    · exact returns_inArray args

/-! ### By name -/

def filtered (name : String) (v : Value) (args : Arguments) : Option (Except RenderError Value) :=
  (Dictionary.get? name filters).map fun f => f v args

def called (name : String) (args : Arguments) : Option (Except RenderError Value) :=
  (Dictionary.get? name functions).map fun f => f args

end EmbeddedLang.Render
