import EmbeddedLang.Dictionary

/-!
Dictionaries that are sorted, in which an entry is found exactly if it is there.
-/

namespace EmbeddedLang.Dictionary

variable {α : Type}

def Sorted (d : Dictionary α) : Prop :=
  d.Pairwise fun x y => x.1 < y.1

theorem mem_of_get? {name : String} {value : α} {d : Dictionary α} (h : get? name d = some value) :
    (name, value) ∈ d := by
  induction d with
  | nil => cases h
  | cons entry rest ih =>
    obtain ⟨other, old⟩ := entry
    simp only [get?, List.lookup_cons] at ih h
    split at h
    · next he =>
      cases h
      rw [eq_of_beq he]
      exact List.mem_cons_self
    · exact List.mem_cons_of_mem _ (ih h)

theorem mem_of_mem_put {name : String} {value : α} {d : Dictionary α} {x : String × α}
    (h : x ∈ put name value d) : x = (name, value) ∨ x ∈ d := by
  induction d with
  | nil => exact .inl (List.mem_singleton.mp h)
  | cons entry rest ih =>
    obtain ⟨other, old⟩ := entry
    unfold put at h
    split at h
    · exact List.mem_cons.mp h
    · split at h
      · exact (List.mem_cons.mp h).imp_right (List.mem_cons_of_mem _)
      · rcases List.mem_cons.mp h with he | hm
        · exact .inr (he ▸ List.mem_cons_self)
        · exact (ih hm).imp_right (List.mem_cons_of_mem _)

theorem mem_of_mem_extend {d : Dictionary α} {extra : List (String × α)} {x : String × α}
    (h : x ∈ extend d extra) : x ∈ d ∨ x ∈ extra := by
  induction extra generalizing d with
  | nil => exact .inl h
  | cons entry rest ih =>
    have h : x ∈ extend (put entry.1 entry.2 d) rest := h
    rcases ih h with h | h
    · rcases mem_of_mem_put h with rfl | h
      · exact .inr List.mem_cons_self
      · exact .inl h
    · exact .inr (List.mem_cons_of_mem _ h)

theorem mem_of_mem_ofList {entries : List (String × α)} {x : String × α} (h : x ∈ ofList entries) :
    x ∈ entries :=
  (mem_of_mem_extend h).resolve_left List.not_mem_nil

theorem Sorted.put {d : Dictionary α} (h : Sorted d) (name : String) (value : α) :
    Sorted (put name value d) := by
  induction d with
  | nil => exact List.pairwise_singleton _ _
  | cons entry rest ih =>
    obtain ⟨other, old⟩ := entry
    obtain ⟨hfirst, hrest⟩ := List.pairwise_cons.mp h
    unfold Dictionary.put
    split
    · next hlt =>
      refine List.pairwise_cons.mpr ⟨?_, h⟩
      rintro y (_ | ⟨_, hy⟩)
      · exact hlt
      · exact String.lt_trans hlt (hfirst y hy)
    · next hlt =>
      split
      · next he =>
        subst he
        exact List.pairwise_cons.mpr ⟨hfirst, hrest⟩
      · next hne =>
        refine List.pairwise_cons.mpr ⟨?_, ih hrest⟩
        intro y hy
        rcases mem_of_mem_put hy with rfl | hy
        · apply Decidable.byContradiction
          intro hgt
          exact hne (String.le_antisymm (String.not_lt.mp hgt) (String.not_lt.mp hlt))
        · exact hfirst y hy

theorem Sorted.filter {d : Dictionary α} (h : Sorted d) (p : String × α → Bool) :
    Sorted (d.filter p) :=
  List.Pairwise.filter p h

theorem get?_eq_some_iff {d : Dictionary α} (h : Sorted d) (name : String) (value : α) :
    get? name d = some value ↔ (name, value) ∈ d := by
  induction d with
  | nil => simp [get?]
  | cons entry rest ih =>
    obtain ⟨other, old⟩ := entry
    obtain ⟨hfirst, hrest⟩ := List.pairwise_cons.mp h
    simp only [get?] at ih ⊢
    rw [List.lookup_cons]
    by_cases he : name = other
    · subst he
      have hnot : (name, value) ∉ rest := fun hm => String.lt_irrefl name (hfirst (name, value) hm)
      simp [hnot, eq_comm]
    · simp [beq_false_of_ne he, ih hrest, he]

theorem get?_filter {d : Dictionary α} (h : Sorted d) (p : String × α → Bool) (name : String) :
    get? name (d.filter p) = (get? name d).filter fun value => p (name, value) := by
  apply Option.ext
  intro value
  rw [get?_eq_some_iff (h.filter p), List.mem_filter, Option.filter_eq_some_iff,
    get?_eq_some_iff h]

theorem get?_erase_self {d : Dictionary α} (h : Sorted d) (name : String) :
    get? name (erase name d) = none := by
  rw [erase, get?_filter h]
  simp

theorem get?_erase_ne {d : Dictionary α} (h : Sorted d) {name other : String} (hne : other ≠ name) :
    get? other (erase name d) = get? other d := by
  have hkeep : (other != name) = true := bne_iff_ne.mpr hne
  rw [erase, get?_filter h]
  cases get? other d with
  | none => rfl
  | some value => simp only [Option.filter, hkeep, ↓reduceIte]

theorem erase_put (name : String) (value : α) (d : Dictionary α) :
    erase name (put name value d) = erase name d := by
  induction d with
  | nil => simp [erase, put]
  | cons entry rest ih =>
    obtain ⟨other, old⟩ := entry
    unfold put
    split
    · simp [erase]
    · split
      · next he => simp [erase, he]
      · next hne =>
        have hkeep : (other != name) = true := bne_iff_ne.mpr (Ne.symm hne)
        simpa [erase, hkeep] using ih

theorem Sorted.extend {d : Dictionary α} (h : Sorted d) (entries : List (String × α)) :
    Sorted (extend d entries) := by
  induction entries generalizing d with
  | nil => exact h
  | cons entry rest ih => exact ih (h.put entry.1 entry.2)

theorem sorted_ofList (entries : List (String × α)) : Sorted (ofList entries) :=
  Sorted.extend List.Pairwise.nil entries

theorem Sorted.ext {d d' : Dictionary α} (h : Sorted d) (h' : Sorted d')
    (hsame : ∀ name, get? name d = get? name d') : d = d' := by
  have hmem (x : String × α) : x ∈ d ↔ x ∈ d' := by
    rw [← get?_eq_some_iff h, ← get?_eq_some_iff h', hsame]
  have hnodup {d : Dictionary α} (h : Sorted d) : d.Nodup := by
    apply List.Pairwise.imp _ h
    rintro x _ hlt rfl
    exact String.lt_irrefl _ hlt
  have hperm := (List.perm_ext_iff_of_nodup (hnodup h) (hnodup h')).mpr hmem
  refine hperm.eq_of_pairwise (fun x y _ _ hxy hyx => ?_) h h'
  exact absurd (String.lt_trans hxy hyx) (String.lt_irrefl _)

/-! ### Counting entries -/

theorem get?_eq_none_of_lt {d : Dictionary α} (h : Sorted d) {name : String}
    (hlt : ∀ x ∈ d, name < x.1) : get? name d = none := by
  cases hd : get? name d with
  | none => rfl
  | some value =>
    have hm := (get?_eq_some_iff h name value).mp hd
    exact absurd (hlt _ hm) (String.lt_irrefl name)

/-- What is put in a dictionary counts instead of what it displaces. -/
theorem countP_put {d : Dictionary α} (h : Sorted d) (p : String × α → Bool) (name : String)
    (value : α) : (put name value d).countP p + ((get? name d).any fun old => p (name, old)).toNat =
      d.countP p + (p (name, value)).toNat := by
  induction d with
  | nil => cases hp : p (name, value) <;> simp [put, get?, hp]
  | cons entry rest ih =>
    obtain ⟨other, old⟩ := entry
    obtain ⟨hfirst, hrest⟩ := List.pairwise_cons.mp h
    unfold put
    split
    · next hlt =>
      have hnone : get? name ((other, old) :: rest) = none := by
        apply get?_eq_none_of_lt h
        rintro x (_ | ⟨_, hx⟩)
        · exact hlt
        · exact String.lt_trans hlt (hfirst x hx)
      rw [hnone, List.countP_cons]
      cases hp : p (name, value) <;> simp
    · split
      · next he =>
        subst he
        simp only [List.countP_cons, get?, List.lookup_cons, beq_self_eq_true, Option.any_some]
        cases p (name, value) <;> cases p (name, old) <;> simp
      · next hne =>
        have hrest := ih hrest
        simp only [List.countP_cons, get?, List.lookup_cons, beq_false_of_ne hne] at hrest ⊢
        omega

theorem countP_erase {d : Dictionary α} (h : Sorted d) (p : String × α → Bool) (name : String) :
    (erase name d).countP p + ((get? name d).any fun old => p (name, old)).toNat = d.countP p := by
  induction d with
  | nil => rfl
  | cons entry rest ih =>
    obtain ⟨other, old⟩ := entry
    obtain ⟨hfirst, hrest⟩ := List.pairwise_cons.mp h
    have ih := ih hrest
    by_cases he : name = other
    · subst he
      rw [get?_eq_none_of_lt hrest hfirst] at ih
      simp only [erase, List.filter_cons, get?, List.lookup_cons, bne_self_eq_false,
        beq_self_eq_true, List.countP_cons, Option.any_some] at ih ⊢
      cases hp : p (name, old) <;> simp_all
    · have hkeep : (other != name) = true := bne_iff_ne.mpr (Ne.symm he)
      simp only [erase, List.filter_cons, get?, List.lookup_cons, hkeep, beq_false_of_ne he,
        List.countP_cons, ↓reduceIte] at ih ⊢
      omega

/-! ### Other values under the same names -/

variable {β : Type}

theorem get?_mapValues (f : α → β) (name : String) (d : Dictionary α) :
    get? name (mapValues f d) = (get? name d).map f := by
  induction d with
  | nil => rfl
  | cons entry rest ih =>
    obtain ⟨other, value⟩ := entry
    simp only [get?, mapValues, List.map_cons, List.lookup_cons] at ih ⊢
    cases name == other with
    | true => rfl
    | false => exact ih

theorem has_mapValues (f : α → β) (name : String) (d : Dictionary α) :
    has name (mapValues f d) = has name d := by
  simp [has, get?_mapValues]

theorem mapValues_put (f : α → β) (name : String) (value : α) (d : Dictionary α) :
    mapValues f (put name value d) = put name (f value) (mapValues f d) := by
  induction d with
  | nil => rfl
  | cons entry rest ih =>
    obtain ⟨other, old⟩ := entry
    simp only [mapValues, List.map_cons, put] at ih ⊢
    split
    · rfl
    · split
      · rfl
      · rw [List.map_cons, ih]

theorem Sorted.mapValues {d : Dictionary α} (h : Sorted d) (f : α → β) : Sorted (mapValues f d) :=
  List.pairwise_map.mpr h

theorem mapValues_mapValues {γ : Type} (g : β → γ) (f : α → β) (d : Dictionary α) :
    mapValues g (mapValues f d) = mapValues (g ∘ f) d := by
  simp [mapValues]

theorem has_put (name other : String) (value : α) (d : Dictionary α) :
    has other (put name value d) = (other == name || has other d) := by
  by_cases h : other = name
  · simp [has, h, get?_put_self]
  · simp [has, h, get?_put_ne]

/-! ### Many entries -/

theorem has_extend (name : String) (d : Dictionary α) (entries : List (String × α)) :
    has name (extend d entries) = (entries.any (·.1 == name) || has name d) := by
  induction entries generalizing d with
  | nil => rfl
  | cons entry rest ih =>
    change has name (extend (put entry.1 entry.2 d) rest) = _
    rw [ih, has_put, List.any_cons, Bool.or_left_comm, BEq.comm, Bool.or_assoc]

theorem perm_put {name : String} {d : Dictionary α} (h : has name d = false) (value : α) :
    (put name value d).Perm ((name, value) :: d) := by
  induction d with
  | nil => exact .refl _
  | cons entry rest ih =>
    obtain ⟨other, old⟩ := entry
    unfold put
    split
    · exact .refl _
    · have hne : name ≠ other := by
        rintro rfl
        simp [has, get?] at h
      have hrest : has name rest = false := by
        simpa [has, get?, List.lookup_cons, beq_false_of_ne hne] using h
      rw [if_neg hne]
      exact ((ih hrest).cons _).trans (.swap _ _ _)

/-- Entries are found before those that they extend. -/
theorem get?_extend {extra : Dictionary α} (h : Sorted extra) (d : Dictionary α) (name : String) :
    get? name (extend d extra) = (get? name extra).or (get? name d) := by
  induction extra generalizing d with
  | nil => rfl
  | cons entry rest ih =>
    obtain ⟨other, value⟩ := entry
    obtain ⟨hfirst, hrest⟩ := List.pairwise_cons.mp h
    change get? name (extend (put other value d) rest) = _
    rw [ih hrest]
    by_cases he : name = other
    · subst he
      rw [get?_eq_none_of_lt hrest hfirst, get?_put_self, Option.none_or]
      simp [get?]
    · have hother : get? name ((other, value) :: rest) = get? name rest := by
        simp [get?, List.lookup_cons, beq_false_of_ne he]
      rw [get?_put_ne he, hother]

/-- No entry is lost among names that are new. -/
theorem perm_extend {d : Dictionary α} {entries : List (String × α)}
    (hnodup : (entries.map (·.1)).Nodup) (hnew : ∀ e ∈ entries, has e.1 d = false) :
    (extend d entries).Perm (d ++ entries) := by
  induction entries generalizing d with
  | nil =>
    rw [List.append_nil]
    exact .refl _
  | cons entry rest ih =>
    obtain ⟨hfirst, hnodup⟩ := List.nodup_cons.mp hnodup
    obtain ⟨hentry, hnew⟩ := List.forall_mem_cons.mp hnew
    have hrest : ∀ e ∈ rest, has e.1 (put entry.1 entry.2 d) = false := by
      intro e he
      have hne : e.1 ≠ entry.1 := fun h => hfirst (List.mem_map.mpr ⟨e, he, h⟩)
      rw [has_put, beq_false_of_ne hne, hnew e he, Bool.or_false]
    change (extend (put entry.1 entry.2 d) rest).Perm _
    calc
      (extend (put entry.1 entry.2 d) rest).Perm (put entry.1 entry.2 d ++ rest) := ih hnodup hrest
      List.Perm _ (entry :: d ++ rest) := (perm_put hentry entry.2).append_right rest
      List.Perm _ (d ++ entry :: rest) := List.perm_middle.symm

end EmbeddedLang.Dictionary
