import EmbeddedLang.Proofs.Dictionary
import EmbeddedLang.Proofs.Returns
import EmbeddedLang.Render.Execution

/-!
A program is made of the templates of one chain of parents, and of nothing else.
-/

namespace EmbeddedLang.Render

open Template (CompiledTemplate Instruction)

theorem mem_addMissing {α : Type} {d : Dictionary α} {more : List (String × α)} {x : String × α}
    (h : x ∈ addMissing d more) : x ∈ d ∨ x ∈ more := by
  induction more generalizing d with
  | nil => exact .inl h
  | cons entry rest ih =>
    obtain ⟨name, a⟩ := entry
    have h : x ∈ addMissing (Dictionary.putNew name a d) rest := h
    rcases ih h with h | h
    · unfold Dictionary.putNew at h
      split at h
      · exact .inl h
      · rcases Dictionary.mem_of_mem_put h with rfl | h
        · exact .inr List.mem_cons_self
        · exact .inl h
    · exact .inr (List.mem_cons_of_mem _ h)

theorem mem_foldl_addMissing {α γ : Type} {of : γ → List (String × α)} {ts : List γ}
    {d : Dictionary α} {x : String × α} (h : x ∈ ts.foldl (fun d t => addMissing d (of t)) d) :
    x ∈ d ∨ ∃ t ∈ ts, x ∈ of t := by
  induction ts generalizing d with
  | nil => exact .inl h
  | cons t rest ih =>
    rcases ih h with h | ⟨t', ht', h⟩
    · rcases mem_addMissing h with h | h
      · exact .inl h
      · exact .inr ⟨t, List.mem_cons_self, h⟩
    · exact .inr ⟨t', List.mem_cons_of_mem _ ht', h⟩

theorem get?_addMissing {α : Type} (name : String) (d : Dictionary α) (more : List (String × α)) :
    Dictionary.get? name (addMissing d more) = (Dictionary.get? name d).or (more.lookup name) := by
  induction more generalizing d with
  | nil => exact Option.or_none.symm
  | cons entry rest ih =>
    obtain ⟨other, a⟩ := entry
    change Dictionary.get? name (addMissing (Dictionary.putNew other a d) rest) = _
    rw [ih, List.lookup_cons, Dictionary.putNew]
    by_cases he : name = other
    · subst he
      rw [beq_self_eq_true]
      cases hd : Dictionary.get? name d with
      | none =>
        have hhas : Dictionary.has name d = false := by rw [Dictionary.has, hd, Option.isSome_none]
        rw [hhas, if_neg Bool.false_ne_true, Dictionary.get?_put_self, Option.some_or,
          Option.none_or]
      | some old =>
        have hhas : Dictionary.has name d = true := by rw [Dictionary.has, hd, Option.isSome_some]
        rw [hhas, if_pos rfl, hd, Option.some_or, Option.some_or]
    · rw [beq_false_of_ne he]
      split
      · rfl
      · rw [Dictionary.get?_put_ne he]

theorem sorted_addMissing {α : Type} {d : Dictionary α} (h : d.Sorted) (more : List (String × α)) :
    (addMissing d more).Sorted := by
  induction more generalizing d with
  | nil => exact h
  | cons entry rest ih =>
    obtain ⟨name, a⟩ := entry
    have hput : (Dictionary.putNew name a d).Sorted := by
      unfold Dictionary.putNew
      split
      · exact h
      · exact h.put name a
    exact ih hput

section

variable {α γ : Type} (of : γ → List (String × α)) (ts : List γ)

/-- In a chain the first entry under a name counts. -/
theorem get?_foldl_addMissing (name : String) (d : Dictionary α) :
    Dictionary.get? name (ts.foldl (fun d t => addMissing d (of t)) d) =
      (Dictionary.get? name d).or (ts.findSome? fun t => (of t).lookup name) := by
  induction ts generalizing d with
  | nil => exact Option.or_none.symm
  | cons t rest ih =>
    rw [List.foldl_cons, ih, get?_addMissing, Option.or_assoc, List.findSome?_cons]
    cases (of t).lookup name <;> rfl

theorem sorted_foldl_addMissing {d : Dictionary α} (h : d.Sorted) :
    (ts.foldl (fun d t => addMissing d (of t)) d).Sorted := by
  induction ts generalizing d with
  | nil => exact h
  | cons t rest ih => exact ih (sorted_addMissing h (of t))

end

/-- Its instructions, macros and blocks are those of templates that satisfy `C`. -/
structure Program.MadeOf (C : CompiledTemplate → Prop) (p : Program) : Prop where
  main : ∃ t, C t ∧ p.main = t.instructions
  macros : ∀ m ∈ p.macros, ∃ t, C t ∧ m ∈ t.macros
  blocks : ∀ b ∈ p.blocks, ∃ t, C t ∧ b ∈ t.blocks

variable {C : CompiledTemplate → Prop} {r : Renderer}

theorem Program.madeOf_ofChain {first : CompiledTemplate} {parents : List CompiledTemplate}
    (h : ∀ t ∈ first :: parents, C t) : (Program.ofChain first parents).MadeOf C := by
  refine ⟨?_, ?_, ?_⟩
  · have hlast : parents.getLast?.getD first ∈ first :: parents := by
      cases hp : parents.getLast? with
      | none => exact List.mem_cons_self
      | some t => exact List.mem_cons_of_mem _ (List.mem_of_getLast? hp)
    exact ⟨_, h _ hlast, rfl⟩
  · intro m hm
    rcases mem_foldl_addMissing hm with hm | ⟨t, ht, hm⟩
    · cases hm
    · exact ⟨t, h t ht, hm⟩
  · intro b hb
    rcases mem_foldl_addMissing hb with hb | ⟨t, ht, hb⟩
    · cases hb
    · exact ⟨t, h t ht, hb⟩

theorem parentsFrom_returns (hr : ∀ name t, r.load name = .ok t → C t) (limit : Nat)
    (name : Option String) : Returns (fun parents => ∀ t ∈ parents, C t)
      (parentsFrom r limit name) := by
  induction limit generalizing name with
  | zero =>
    cases name with
    | none => exact .ok nofun
    | some name => exact .error _
  | succ limit ih =>
    cases name with
    | none => exact .ok nofun
    | some name =>
      rw [parentsFrom]
      refine Returns.bind ⟨hr name⟩ fun t ht => ?_
      exact (ih t.parent).bind fun parents hparents =>
        .pure (List.forall_mem_cons.mpr ⟨ht, hparents⟩)

theorem ofTemplate_returns (hr : ∀ name t, r.load name = .ok t → C t) {t : CompiledTemplate}
    (ht : C t) : Returns (·.MadeOf C) (Program.ofTemplate r t) :=
  (parentsFrom_returns hr maxParents t.parent).bind fun _ hparents =>
    .pure (Program.madeOf_ofChain (List.forall_mem_cons.mpr ⟨ht, hparents⟩))

theorem Program.macroBody_cases (p : Program) (name : String) :
    (∃ m ∈ p.macros, p.macroBody name = m.2.body) ∨ p.macroBody name = [] := by
  unfold Program.macroBody
  split
  · next m hm => exact .inl ⟨_, Dictionary.mem_of_get? hm, rfl⟩
  · exact .inr rfl

/-- Nothing replaces a block. -/
abbrev Context.plain (s : Surroundings) : Context :=
  ⟨s, fun _ => none⟩

/-- Blocks are replaced by the given bodies, which run as they are. -/
abbrev Context.replacing (s : Surroundings) (bodies : String → Option (List Instruction)) :
    Context :=
  ⟨s, fun name => (bodies name).map (plain s).exec⟩

theorem Program.exec_eq (p : Program) (r : Renderer) (deeper : Option Deeper)
    (is : List Instruction) :
    p.exec r deeper is = (Context.replacing ⟨r, signatures p.macros, deeper⟩
      (Dictionary.get? · p.blocks)).exec is :=
  rfl

/-- Programs do the same at every depth if related bodies do under the same surroundings, and the
macros of one name have related bodies. -/
theorem run_congr {p p' : Program} {S : List Instruction → List Instruction → Prop}
    (hexec : ∀ deeper is is', S is is' → p.exec r deeper is = p'.exec r deeper is')
    (hmacros : ∀ name, S (p.macroBody name) (p'.macroBody name)) (depth : Nat)
    {is is' : List Instruction} (h : S is is') : run r depth p is = run r depth p' is' := by
  induction depth generalizing is is' with
  | zero => rw [run, run, hexec none is is' h]
  | succ depth ih =>
    have hbody (name : String) :
        run r depth p (p.macroBody name) = run r depth p' (p'.macroBody name) := ih (hmacros name)
    rw [run, run]
    simp only [hbody, hexec _ is is' h]

/-- The program of the template that a loader has under a name. -/
def Renderer.program (r : Renderer) (name : String) : Except RenderError Program := do
  Program.ofTemplate r (← r.load name)

theorem liftResult_program {α : Type} (name : String) (f : Program → Rendering α) :
    (liftResult (r.load name) >>= fun t => liftResult (Program.ofTemplate r t) >>= f) =
      liftResult (r.program name) >>= f := by
  unfold Renderer.program
  cases r.load name <;> rfl

/-! ### Chains of parents -/

/-- The template that a template extends, if it can be loaded. -/
def Renderer.parent? (r : Renderer) (t : CompiledTemplate) : Option CompiledTemplate :=
  t.parent.bind fun name => (r.load name).toOption

def Renderer.ancestor? (r : Renderer) : (distance : Nat) → CompiledTemplate →
    Option CompiledTemplate
  | 0, t => some t
  | distance + 1, t => (r.parent? t).bind (r.ancestor? distance)

/-- After so many parents there is one more, loaded or not. -/
def Renderer.HasMoreParents (r : Renderer) (limit : Nat) (t : CompiledTemplate) : Prop :=
  ∃ u, r.ancestor? limit t = some u ∧ u.parent.isSome

theorem parent?_eq_some {t u : CompiledTemplate} (h : r.parent? t = some u) :
    ∃ name, t.parent = some name ∧ r.load name = .ok u := by
  obtain ⟨name, hname, hload⟩ := Option.bind_eq_some_iff.mp h
  refine ⟨name, hname, ?_⟩
  cases hr : r.load name with
  | error e =>
    rw [hr] at hload
    cases hload
  | ok v =>
    rw [hr] at hload
    cases hload
    rfl

theorem parentsFrom_of_hasMoreParents {limit : Nat} {t : CompiledTemplate}
    (h : r.HasMoreParents limit t) :
    parentsFrom r limit t.parent = .error (.recursionLimit maxParents) := by
  obtain ⟨u, hu, hmore⟩ := h
  induction limit generalizing t with
  | zero =>
    cases hu
    obtain ⟨name, hname⟩ := Option.isSome_iff_exists.mp hmore
    rw [hname]
    rfl
  | succ limit ih =>
    obtain ⟨v, hv, hu⟩ := Option.bind_eq_some_iff.mp hu
    obtain ⟨name, hname, hload⟩ := parent?_eq_some hv
    rw [hname, parentsFrom, hload]
    change (parentsFrom r limit v.parent >>= _) = _
    rw [ih hu]
    rfl

theorem parentsFrom_error {limit : Nat} {t : CompiledTemplate} {e : RenderError}
    (h : parentsFrom r limit t.parent = .error e) :
    (e = .recursionLimit maxParents ∧ r.HasMoreParents limit t) ∨
      ∃ name, r.load name = .error e := by
  induction limit generalizing t with
  | zero =>
    cases hname : t.parent with
    | none =>
      rw [hname] at h
      cases h
    | some name =>
      rw [hname] at h
      cases h
      exact .inl ⟨rfl, t, rfl, by rw [hname]; rfl⟩
  | succ limit ih =>
    cases hname : t.parent with
    | none =>
      rw [hname] at h
      cases h
    | some name =>
      rw [hname, parentsFrom] at h
      cases hload : r.load name with
      | error e' =>
        rw [hload] at h
        cases h
        exact .inr ⟨name, hload⟩
      | ok u =>
        rw [hload] at h
        cases hparents : parentsFrom r limit u.parent with
        | ok parents =>
          change (parentsFrom r limit u.parent >>= _) = _ at h
          rw [hparents] at h
          cases h
        | error e' =>
          change (parentsFrom r limit u.parent >>= _) = _ at h
          rw [hparents] at h
          cases h
          refine (ih hparents).imp_left ?_
          rintro ⟨he, v, hv, hmore⟩
          refine ⟨he, v, ?_, hmore⟩
          rw [Renderer.ancestor?, Renderer.parent?, hname, Option.bind_some, hload]
          exact hv

theorem ancestor?_add (r : Renderer) (a b : Nat) (t : CompiledTemplate) :
    r.ancestor? (a + b) t = (r.ancestor? a t).bind (r.ancestor? b) := by
  induction a generalizing t with
  | zero => rw [Nat.zero_add, Renderer.ancestor?, Option.bind_some]
  | succ a ih =>
    rw [Nat.add_right_comm, Renderer.ancestor?, Renderer.ancestor?, Option.bind_assoc]
    congr 1
    exact funext ih

/-- Round a cycle, parents never end. -/
theorem hasMoreParents_of_cycle {t u : CompiledTemplate} {distance length : Nat}
    (h : r.ancestor? distance t = some u) (hcycle : r.ancestor? (length + 1) u = some u)
    (limit : Nat) : r.HasMoreParents limit t := by
  have hrounds (rounds : Nat) : r.ancestor? (distance + rounds * (length + 1)) t = some u := by
    induction rounds with
    | zero => rw [Nat.zero_mul, Nat.add_zero, h]
    | succ rounds ih =>
      rw [Nat.succ_mul, ← Nat.add_assoc, ancestor?_add, ih, Option.bind_some, hcycle]
  -- so many rounds go beyond the limit
  have hfar : limit + 1 ≤ distance + (limit + 1) * (length + 1) :=
    Nat.le_add_left_of_le (Nat.le_mul_of_pos_right _ (Nat.succ_pos _))
  obtain ⟨rest, hrest⟩ := Nat.exists_eq_add_of_le hfar
  have hbeyond := hrounds (limit + 1)
  rw [hrest, Nat.add_assoc, ancestor?_add] at hbeyond
  obtain ⟨v, hv, hlater⟩ := Option.bind_eq_some_iff.mp hbeyond
  rw [Nat.add_comm, Renderer.ancestor?] at hlater
  obtain ⟨w, hw, -⟩ := Option.bind_eq_some_iff.mp hlater
  obtain ⟨name, hname, -⟩ := parent?_eq_some hw
  exact ⟨v, hv, by rw [hname]; rfl⟩

end EmbeddedLang.Render
