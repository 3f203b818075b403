import EmbeddedLang.Proofs.Dictionary
import EmbeddedLang.Proofs.Returns
import EmbeddedLang.Value.Operators
import EmbeddedLang.Value.Slice

/-!
Values whose objects are sorted by name.

Operators make no objects, so that what they return is ordered because it is no part of an operand,
or because the operand is ordered.
-/

namespace EmbeddedLang.Value

inductive IsOrdered : Value → Prop where
  | null : IsOrdered null
  | boolean (b : Bool) : IsOrdered (boolean b)
  | number (n : Number) : IsOrdered (number n)
  | string (s : String) : IsOrdered (string s)
  | array {items : List Value} (h : ∀ v ∈ items, IsOrdered v) : IsOrdered (array items)
  | object {fields : Dictionary Value} (hsorted : fields.Sorted)
      (h : ∀ f ∈ fields, IsOrdered f.2) : IsOrdered (object fields)

/-- The fields of an object that is ordered, or variables like them. -/
structure OrderedFields (fields : Dictionary Value) : Prop where
  sorted : fields.Sorted
  values : ∀ f ∈ fields, f.2.IsOrdered

theorem OrderedFields.object {fields : Dictionary Value} (h : OrderedFields fields) :
    (Value.object fields).IsOrdered :=
  .object h.sorted h.values

theorem IsOrdered.items {items : List Value} (h : (Value.array items).IsOrdered) :
    ∀ v ∈ items, v.IsOrdered := by
  cases h with
  | array h => exact h

theorem IsOrdered.fields {fields : Dictionary Value} (h : (Value.object fields).IsOrdered) :
    OrderedFields fields := by
  cases h with
  | object hsorted h => exact ⟨hsorted, h⟩

theorem IsOrdered.getD {o : Option Value} (h : ∀ v ∈ o, v.IsOrdered) :
    (o.getD Value.null).IsOrdered := by
  cases o with
  | none => exact .null
  | some v => exact h v rfl

namespace OrderedFields

variable {fields : Dictionary Value}

theorem nil : OrderedFields [] :=
  ⟨List.Pairwise.nil, nofun⟩

theorem put (h : OrderedFields fields) (name : String) {v : Value} (hv : v.IsOrdered) :
    OrderedFields (Dictionary.put name v fields) := by
  refine ⟨h.sorted.put name v, fun f hf => ?_⟩
  rcases Dictionary.mem_of_mem_put hf with rfl | hf
  · exact hv
  · exact h.values f hf

theorem extend (h : OrderedFields fields) {extra : List (String × Value)}
    (hextra : ∀ f ∈ extra, f.2.IsOrdered) : OrderedFields (Dictionary.extend fields extra) := by
  refine ⟨h.sorted.extend extra, fun f hf => ?_⟩
  exact (Dictionary.mem_of_mem_extend hf).elim (h.values f) (hextra f)

theorem get? (h : OrderedFields fields) (name : String) :
    ∀ v ∈ Dictionary.get? name fields, v.IsOrdered :=
  fun v hv => h.values (name, v) (Dictionary.mem_of_get? hv)

end OrderedFields

theorem isOrdered_ofFloat (x : Float) : (ofFloat x).IsOrdered := by
  unfold ofFloat
  split
  · exact .number _
  · exact .null

theorem isOrdered_ofLiteral (l : Literal) : (ofLiteral l).IsOrdered := by
  cases l with
  | null => exact .null
  | boolean b => exact .boolean b
  | integer n => exact .number _
  | float x => exact isOrdered_ofFloat x
  | string s => exact .string s

/-! ### Operators -/

theorem returns_ordered (accept : Ordering → Bool) (left right : Value) :
    Returns IsOrdered (ordered accept left right) := by
  unfold ordered
  split
  · exact .ok (.boolean _)
  · exact .error _

theorem returns_integerRange (a b : Int) (step : Nat) :
    Returns IsOrdered (integerRange a b step) := by
  refine (Returns.self _).bind fun places _ => .pure (.array fun v hv => ?_)
  obtain ⟨n, -, rfl⟩ := List.mem_map.mp hv
  exact .number _

theorem returns_characterRange (a b : Char) : Returns IsOrdered (characterRange a b) := by
  refine (Returns.self _).bind fun codes _ => .pure (.array fun v hv => ?_)
  obtain ⟨code, -, hcode⟩ := List.mem_filterMap.mp hv
  unfold character? at hcode
  by_cases h : code.toNat.isValidChar
  · rw [dif_pos h] at hcode
    cases hcode
    exact .string _
  · rw [dif_neg h] at hcode
    cases hcode

theorem returns_range (start stop : Value) : Returns IsOrdered (range start stop) := by
  unfold range
  split
  · exact returns_integerRange _ _ _
  · split
    · exact returns_characterRange _ _
    · exact .error _

theorem returns_arithmetic (op : BinaryOp) (left right : Value) :
    Returns IsOrdered (arithmetic op left right) := by
  unfold arithmetic
  split
  · split
    · exact .error _
    · dsimp only
      split
      · exact .ok (.number _)
      · exact .ok (isOrdered_ofFloat _)
  · exact .error _

theorem returns_binary (op : BinaryOp) (left right : Value) :
    Returns IsOrdered (binary op left right) := by
  cases op with
  | lt | gt | ltEq | gtEq => exact returns_ordered _ _ _
  | «in» | notIn => exact (Returns.self _).bind fun _ _ => .pure (.boolean _)
  | range => exact returns_range _ _
  | concat => exact .ok (.string _)
  | add | sub | mul | div | floorDiv | mod | pow => exact returns_arithmetic _ _ _
  | like | notLike | iLike | notILike | bitAnd | bitOr | bitXor => exact .error _
  | _ => exact .ok (.boolean _)

theorem returns_unary (op : UnaryOp) (operand : Value) : Returns IsOrdered (unary op operand) := by
  unfold unary
  split
  · exact .ok (.boolean _)
  · exact returns_binary _ _ _
  · exact .ok (.number _)
  · exact .error _

/-! ### Parts -/

theorem IsOrdered.slice {v : Value} (h : v.IsOrdered) (first last : Option Int) :
    Returns IsOrdered (slice first last v) := by
  cases h with
  | null => exact .ok .null
  | boolean | number | object => exact .error _
  | string => exact .ok (.string _)
  | @array items h =>
    refine .ok (.array fun v hv => h v ?_)
    exact List.mem_of_mem_take (List.mem_of_mem_drop hv)

theorem IsOrdered.member? {v : Value} (h : v.IsOrdered) (property : String) :
    ∀ w ∈ member? property v, w.IsOrdered := by
  intro w hw
  cases h with
  | null | boolean | number | string => cases hw
  | array h =>
    obtain ⟨i, -, hi⟩ := Option.bind_eq_some_iff.mp hw
    exact h w (List.mem_of_getElem? hi)
  | object hsorted h => exact OrderedFields.get? ⟨hsorted, h⟩ property w hw

theorem IsOrdered.subscript? {v : Value} (h : v.IsOrdered) (index : Value) :
    ∀ w ∈ subscript? index v, w.IsOrdered := by
  intro w hw
  cases h with
  | null | boolean | number => cases hw
  | string =>
    obtain ⟨i, -, hi⟩ := Option.bind_eq_some_iff.mp hw
    obtain ⟨c, -, rfl⟩ := Option.map_eq_some_iff.mp hi
    exact .string _
  | array h =>
    obtain ⟨i, -, hi⟩ := Option.bind_eq_some_iff.mp hw
    exact h w (List.mem_of_getElem? hi)
  | object hsorted h => exact OrderedFields.get? ⟨hsorted, h⟩ _ w hw

end EmbeddedLang.Value
