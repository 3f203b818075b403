/-!
Finite maps from names, as lists sorted by name without repetition.
-/

namespace EmbeddedLang

abbrev Dictionary (α : Type) := List (String × α)

namespace Dictionary

variable {α : Type}

def empty : Dictionary α := []

def get? (name : String) (d : Dictionary α) : Option α :=
  d.lookup name

def has (name : String) (d : Dictionary α) : Bool :=
  (get? name d).isSome

def put (name : String) (value : α) : Dictionary α → Dictionary α
  | [] => [(name, value)]
  | (other, old) :: rest =>
    if name < other then (name, value) :: (other, old) :: rest
    else if name = other then (name, value) :: rest
    else (other, old) :: put name value rest

/-- Keeps the value that is already there. -/
def putNew (name : String) (value : α) (d : Dictionary α) : Dictionary α :=
  if has name d then d else put name value d

def erase (name : String) (d : Dictionary α) : Dictionary α :=
  d.filter fun entry => entry.1 != name

/-- The entries of `extra` over those of `d`. -/
def extend (d extra : Dictionary α) : Dictionary α :=
  extra.foldl (fun d (name, value) => put name value d) d

def ofList (entries : List (String × α)) : Dictionary α :=
  extend empty entries

def keys (d : Dictionary α) : List String :=
  d.map (·.1)

def mapValues {β : Type} (f : α → β) (d : Dictionary α) : Dictionary β :=
  d.map fun (name, value) => (name, f value)

theorem get?_put_self (name : String) (value : α) (d : Dictionary α) :
    get? name (put name value d) = some value := by
  induction d with
  | nil => simp [put, get?]
  | cons entry rest ih =>
    obtain ⟨other, old⟩ := entry
    unfold put
    split
    · simp [get?]
    · split
      · simp [get?]
      · next h => simpa [get?, List.lookup_cons, beq_false_of_ne h] using ih

theorem get?_put_ne {name other : String} (h : other ≠ name) (value : α) (d : Dictionary α) :
    get? other (put name value d) = get? other d := by
  induction d with
  | nil => simp [put, get?, List.lookup_cons, beq_false_of_ne h]
  | cons entry rest ih =>
    obtain ⟨key, old⟩ := entry
    unfold put
    split
    · simp [get?, List.lookup_cons, beq_false_of_ne h]
    · split
      · next e => subst e; simp [get?, List.lookup_cons, beq_false_of_ne h]
      · simp only [get?, List.lookup_cons] at ih ⊢
        split <;> simp_all

end Dictionary

end EmbeddedLang
