import EmbeddedLang.Proofs.Dictionary
import EmbeddedLang.Render.Execution

/-!
Which limits are reported.

Operators know of none, nor do the filters, tests and functions that every renderer has.
-/

namespace EmbeddedLang.Render

open Value

variable {α β : Type} {K : Nat → Prop}

/-- Where the computation fails for a limit, it is one of `K`. -/
structure Reports (K : Nat → Prop) (x : Except RenderError α) : Prop where
  of_error : ∀ n, x = .error (.recursionLimit n) → K n

namespace Reports

theorem ok (a : α) : Reports K (.ok a : Except RenderError α) where
  of_error n h := by cases h

theorem pure (a : α) : Reports K (Pure.pure a : Except RenderError α) :=
  ok a

theorem error {e : RenderError} (h : ∀ n, e = .recursionLimit n → K n) :
    Reports K (.error e : Except RenderError α) where
  of_error n he := by
    cases he
    exact h n rfl

theorem type (reason : String) : Reports K (.error (.type reason) : Except RenderError α) :=
  error nofun

theorem bind {x : Except RenderError α} {f : α → Except RenderError β} (h : Reports K x)
    (hf : ∀ a, Reports K (f a)) : Reports K (x >>= f) := by
  cases x with
  | ok a => exact hf a
  | error e =>
    constructor
    intro n he
    cases he
    exact h.of_error n rfl

end Reports

/-! ### Operators -/

theorem reports_ordered (accept : Ordering → Bool) (left right : Value) :
    Reports K (ordered accept left right) := by
  unfold ordered
  split
  · exact .ok _
  · exact .type _

theorem reports_contains (haystack needle : Value) : Reports K (contains haystack needle) := by
  unfold contains
  split
  · exact .ok _
  · exact .ok _
  · exact .ok _
  · exact .ok _
  · exact .type _

theorem reports_span (a b : Int) (step : Nat) : Reports K (span a b step) := by
  unfold span
  split
  · exact .ok _
  · exact .type _

theorem reports_integerRange (a b : Int) (step : Nat) : Reports K (integerRange a b step) :=
  (reports_span a b step).bind fun _ => .pure _

theorem reports_range (start stop : Value) : Reports K (range start stop) := by
  unfold range
  split
  · exact reports_integerRange _ _ _
  · split
    · exact (reports_span _ _ _).bind fun _ => .pure _
    · exact .type _

theorem reports_arithmetic (op : BinaryOp) (left right : Value) :
    Reports K (arithmetic op left right) := by
  unfold arithmetic
  split
  · split
    · exact .error nofun
    · dsimp only
      split
      · exact .ok _
      · exact .ok _
  · exact .type _

theorem reports_binary (op : BinaryOp) (left right : Value) : Reports K (binary op left right) := by
  cases op with
  | lt | gt | ltEq | gtEq => exact reports_ordered _ _ _
  | «in» | notIn => exact (reports_contains _ _).bind fun _ => .pure _
  | range => exact reports_range _ _
  | add | sub | mul | div | floorDiv | mod | pow => exact reports_arithmetic _ _ _
  | like | notLike | iLike | notILike | bitAnd | bitOr | bitXor => exact .type _
  | _ => exact .ok _

theorem reports_unary (op : UnaryOp) (operand : Value) : Reports K (unary op operand) := by
  unfold unary
  split
  · exact .ok _
  · exact reports_binary _ _ _
  · exact .ok _
  · exact .type _

theorem reports_slice (first last : Option Int) (v : Value) : Reports K (slice first last v) := by
  unfold slice
  split
  · exact .ok _
  · exact .ok _
  · exact .ok _
  · exact .type _

theorem reports_entries (v : Value) : Reports K (entries v) := by
  unfold entries
  split
  · exact .ok _
  · exact .ok _
  · exact .ok _
  · exact .type _

theorem reports_updated (op : Template.AssignOp) (current : Option Value) (v : Value) :
    Reports K (updated op current v) := by
  unfold updated
  split
  · exact .ok _
  · split
    · exact reports_binary _ _ _
    · exact reports_binary _ _ _
    · exact reports_binary _ _ _

theorem reports_included (scopes : List Scope) (v : Value) : Reports K (included scopes v) := by
  unfold included
  split
  · exact .ok _
  · exact .ok _
  · exact .type _

theorem reports_contextScope (v : Value) : Reports K (contextScope v) := by
  unfold contextScope
  split
  · exact .ok _
  · exact .ok _
  · exact .type _

theorem reports_frame (name : String) (args : Arguments) (index : Nat) (scope : Scope)
    (params : List Template.Param) :
    Reports K (Surroundings.frame name args index scope params) := by
  induction params generalizing index scope with
  | nil => exact .ok _
  | cons p rest ih =>
    unfold Surroundings.frame
    split
    · exact ih _ _
    · exact .error nofun

/-! ### Filters, tests and functions -/

theorem reports_array? (filter : String) (v : Value) : Reports K (array? filter v) := by
  unfold array?
  split
  · exact .ok _
  · exact .type _

theorem reports_needsString (filter : String) (f : List Char → List Char) (v : Value)
    (args : Arguments) : Reports K (needsString filter f v args) := by
  unfold needsString
  split
  · exact .ok _
  · exact .type _

theorem reports_length (v : Value) (args : Arguments) : Reports K (length v args) := by
  unfold length
  split
  · exact .ok _
  · exact .type _

theorem reports_first (v : Value) (args : Arguments) : Reports K (first v args) := by
  unfold first
  split
  · exact .ok _
  · exact (reports_array? _ _).bind fun _ => .pure _

theorem reports_last (v : Value) (args : Arguments) : Reports K (last v args) := by
  unfold last
  split
  · exact .ok _
  · exact (reports_array? _ _).bind fun _ => .pure _

theorem reports_keys (v : Value) (args : Arguments) : Reports K (keys v args) := by
  unfold keys
  split
  · exact .ok _
  · exact .ok _
  · exact .type _

theorem reports_reverse (v : Value) (args : Arguments) : Reports K (reverse v args) := by
  unfold reverse
  split
  · exact .ok _
  · exact (reports_array? _ _).bind fun _ => .pure _

theorem reports_abs (v : Value) (args : Arguments) : Reports K (abs v args) := by
  unfold abs
  split
  · exact .ok _
  · exact .ok _
  · exact .type _

theorem reports_filters : ∀ f ∈ filters, ∀ v args, Reports K (f.2 v args) := by
  intro f hf v args
  have hf := Dictionary.mem_of_mem_ofList hf
  simp only [List.mem_cons, List.not_mem_nil, or_false] at hf
  rcases hf with rfl | rfl | rfl | rfl | rfl | rfl | rfl | rfl | rfl | rfl | rfl | rfl | rfl | rfl |
    rfl | rfl | rfl | rfl | rfl | rfl | rfl | rfl | rfl
  -- most filters show a value, or change a text
  all_goals dsimp only
  all_goals first
    | exact .ok _
    | exact reports_needsString _ _ _ _
    | skip
  · exact reports_length _ _
  · exact (reports_array? _ _).bind fun _ => .pure _
  · exact reports_first _ _
  · exact reports_last _ _
  · exact reports_keys _ _
  · exact (reports_array? _ _).bind fun _ => .pure _
  · exact reports_reverse _ _
  · exact reports_abs _ _

theorem reports_integer? (test : String) (v : Value) : Reports K (integer? test v) := by
  unfold integer?
  split
  · exact .ok _
  · exact .type _

theorem reports_divisible (v : Value) (args : Arguments) : Reports K (divisible v args) := by
  refine (reports_integer? _ _).bind fun n => ?_
  split
  · exact .type _
  · split
    · exact .error nofun
    · exact .pure _

theorem reports_hasType (v : Value) (args : Arguments) : Reports K (hasType v args) := by
  unfold hasType
  split
  · exact .ok _
  · exact .type _

theorem reports_tests : ∀ f ∈ tests, ∀ v args, Reports K (f.2 v args) := by
  intro f hf v args
  have hf := Dictionary.mem_of_mem_ofList hf
  simp only [List.mem_cons, List.not_mem_nil, or_false] at hf
  rcases hf with rfl | rfl | rfl | rfl | rfl | rfl | rfl | rfl | rfl | rfl
  · exact .ok _
  · exact (reports_integer? _ _).bind fun _ => .pure _
  · exact (reports_integer? _ _).bind fun _ => .pure _
  · exact .ok _
  · exact .ok _
  · exact .ok _
  · exact .ok _
  · exact reports_divisible _ _
  · exact .ok _
  · exact reports_hasType _ _

theorem reports_rangeFunction (args : Arguments) : Reports K (rangeFunction args) := by
  have hbounds (start stop : Option Int) : Reports K (rangeBounds start stop) := by
    unfold rangeBounds
    split
    · exact .ok _
    · exact .ok _
    · exact .type _
  refine (hbounds _ _).bind fun bounds => ?_
  dsimp only
  split
  · exact .type _
  · exact reports_integerRange _ _ _

theorem reports_extreme (wanted : Ordering) (args : Arguments) :
    Reports K (extreme wanted args) := by
  have hfrom (best : Value) (more : List Value) : Reports K (extremeFrom wanted best more) := by
    induction more generalizing best with
    | nil => exact .ok _
    | cons v rest ih =>
      unfold extremeFrom
      split
      · exact ih _
      · exact .type _
  unfold extreme
  split
  · exact .ok _
  · exact hfrom _ _

theorem reports_inArray (args : Arguments) : Reports K (inArray args) := by
  unfold inArray
  split
  · exact .ok _
  · exact .type _

theorem reports_functions : ∀ f ∈ functions, ∀ args, Reports K (f.2 args) := by
  intro f hf args
  have hf := Dictionary.mem_of_mem_ofList hf
  simp only [List.mem_cons, List.not_mem_nil, or_false] at hf
  rcases hf with rfl | rfl | rfl | rfl
  · exact reports_rangeFunction args
  · exact reports_extreme _ args
  · exact reports_extreme _ args
  · exact reports_inArray args

end EmbeddedLang.Render
