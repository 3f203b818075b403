import EmbeddedLang.Proofs.Lexical.Tiling
import EmbeddedLang.Proofs.Query.Blame
import EmbeddedLang.Proofs.Returns
import EmbeddedLang.Proofs.Template.Blame

/-!
Every position that is reported is exact: it is the one reached over the text before its offset.

The positions of tokens are exact, and so are those of scan errors and of the end. Whatever moves
the other positions and leaves the exact ones does not change what is parsed. So only exact ones
are named in it, and the translations take theirs from there.
-/

namespace EmbeddedLang

/-- The offset is a boundary between two characters or an end of the source, and line and column
are counted over the text before it. -/
def Position.ExactIn (source : String) (p : Position) : Prop :=
  ∃ before after : String, source = before ++ after ∧ p.offset = before.utf8ByteSize ∧
    p = Position.start.advanceAll before.toList

theorem Position.exactIn_of_prefix {source : String} {before after : List Char}
    (h : source.toList = before ++ after) : (start.advanceAll before).ExactIn source := by
  refine ⟨String.ofList before, String.ofList after, ?_, ?_, ?_⟩
  · apply String.toList_injective
    simpa using h
  · simp [offset_advanceAll, start]
  · simp

variable {t : LanguageTable} {source : String}

theorem scan_exact (ht : t.Marked) (source : String) :
    (∀ token ∈ (scan t source).tokens, token.position.ExactIn source) ∧
    (∀ e ∈ (scan t source).fault, e.At (Position.ExactIn source)) ∧
    ((scan t source).fault = none → (scan t source).stop.ExactIn source) := by
  obtain ⟨last, ⟨tiles, htiles, htokens⟩, hends, hstop⟩ := scan_covers ht source
  have hlast : last.position.ExactIn source := by
    rw [htiles.position_eq]
    exact Position.exactIn_of_prefix htiles.rest_eq
  refine ⟨fun token hmem => ?_, fun e he => ?_, fun hnone => ?_⟩
  · rw [← htokens] at hmem
    obtain ⟨-, before, after, hsource, hposition⟩ := htiles.cutFrom (Tiling.mem_tokens.mp hmem)
    rw [hposition]
    exact Position.exactIn_of_prefix (hsource.trans (List.append_assoc ..))
  · have hfault : (scan t source).fault = some e := he
    rw [Scan.EndsAt, hfault] at hends
    exact ⟨last.position, hends, hlast⟩
  · rw [hstop hnone]
    exact hlast

/-! ### Parsing -/

theorem CompileError.relocate_eq_self_iff {f : Position → Position} (e : CompileError) :
    e.relocate f = e ↔ ∀ p, e.position? = some p → f p = p := by
  cases e <;> simp [relocate, position?]

theorem TokensAlike.refl {f : Position → Position} {tokens : List Token}
    (h : ∀ token ∈ tokens, f token.position = token.position) (dot : Bool) :
    TokensAlike f true dot tokens tokens := by
  induction tokens generalizing dot with
  | nil => exact .nil
  | cons token rest ih =>
    obtain ⟨htoken, hrest⟩ := List.forall_mem_cons.mp h
    exact .cons ⟨rfl, htoken.symm, fun _ => rfl⟩ (ih hrest _)

/-- A source whose exact positions stay where they are is alike to itself. -/
theorem Cursor.ofSource_alike (ht : t.Marked) {f : Position → Position}
    (hf : ∀ p : Position, p.ExactIn source → f p = p) :
    (ofSource t source).Alike f true (ofSource t source) := by
  obtain ⟨htokens, hfault, hstop⟩ := scan_exact ht source
  refine ⟨false, .refl (fun token hmem => hf _ (htokens token hmem)) false, ?_, ?_, ?_⟩
  · change (scan t source).fault = _
    cases h : (scan t source).fault with
    | none => rw [ofSource, h]; rfl
    | some e =>
      obtain ⟨p, hp, hexact⟩ := hfault e h
      have he : e.relocate f = e := (e.relocate_eq_self_iff).mpr fun q hq => by
        rw [hp] at hq
        cases hq
        exact hf p hexact
      simp [ofSource, h, he]
  · intro e he
    obtain ⟨p, hp, -⟩ := hfault e he
    rw [hp]
    rfl
  · exact fun hnone => (hf _ (hstop hnone)).symm

theorem SameOutcome.error_inv {α β : Type} {f : Position → Position} {strict : Bool}
    {S : α → β → Prop} {e e' : CompileError} {c d : Cursor}
    (h : SameOutcome f strict S (.error e c) (.error e' d)) :
    e' = e.relocate f ∧ e.position?.isSome := by
  cases h with
  | error hp => exact ⟨rfl, hp⟩

theorem Moves.run_self {α : Type} {f : Position → Position} {r : α → α} {p : Parse α}
    (h : Moves f true r p p) {c : Cursor} (hc : c.Alike f true c) :
    (∀ a, Parse.run? p c = .ok a → r a = a) ∧
      ∀ e, Parse.run? p c = .error e → e.relocate f = e ∧ e.position?.isSome := by
  have hrun := h.run c c hc
  unfold Parse.run?
  cases hx : p c with
  | ok a c' =>
    rw [hx] at hrun
    refine ⟨fun b hb => ?_, nofun⟩
    cases hb
    cases hrun with
    | ok ha _ => exact ha.symm
  | error e c' =>
    rw [hx] at hrun
    refine ⟨nofun, fun e' he => ?_⟩
    cases he
    obtain ⟨hsame, hplaced⟩ := hrun.error_inv
    exact ⟨hsame.symm, hplaced⟩

open Classical in
/-- Moves all positions but these. -/
noncomputable def Position.moveOthers (P : Position → Prop) (p : Position) : Position :=
  if P p then p else { p with offset := p.offset + 1 }

theorem Position.moveOthers_eq_iff {P : Position → Prop} {p : Position} :
    moveOthers P p = p ↔ P p := by
  unfold moveOthers
  split
  · next h => simp [h]
  · next h =>
    refine iff_of_false (fun heq => ?_) h
    have hoffset := congrArg Position.offset heq
    simp at hoffset

/-- A parser that passes positions on reports exact ones only. -/
theorem run?_exact {α : Type} (ht : t.Marked) {p : Parse α} {places : α → List Position}
    {r : (Position → Position) → α → α} (hp : ∀ f, Moves f true (r f) p p)
    (hplaces : ∀ f a, places (r f a) = (places a).map f) (source : String) :
    Returns (fun a => ∀ q ∈ places a, q.ExactIn source)
        (Parse.run? p (Cursor.ofSource t source)) ∧
      Blames (Position.ExactIn source) (Parse.run? p (Cursor.ofSource t source)) := by
  have hexact (q : Position) (hq : q.ExactIn source) :
      q.moveOthers (Position.ExactIn source) = q :=
    Position.moveOthers_eq_iff.mpr hq
  -- moving the others leaves the tokens and the scan error, and so what is read
  have halike := Cursor.ofSource_alike ht hexact
  obtain ⟨hok, herror⟩ := (hp _).run_self halike
  refine ⟨⟨fun a ha q hq => ?_⟩, ⟨fun e he => ?_⟩⟩
  · have hmap := hplaces (Position.moveOthers (Position.ExactIn source)) a
    rw [hok a ha] at hmap
    have hfixed := List.map_inj_left.mp (hmap.symm.trans (List.map_id _).symm)
    exact Position.moveOthers_eq_iff.mp (hfixed q hq)
  · obtain ⟨hsame, hplaced⟩ := herror e he
    obtain ⟨q, hq⟩ := Option.isSome_iff_exists.mp hplaced
    exact ⟨q, hq, Position.moveOthers_eq_iff.mp (e.relocate_eq_self_iff.mp hsame q hq)⟩

theorem Query.parse_exact (source : String) :
    Returns (fun s => ∀ p ∈ s.positions, p.ExactIn source) (Query.parse source) ∧
      Blames (Position.ExactIn source) (Query.parse source) :=
  run?_exact (marked_of_mem (by simp)) (fun _ => Query.statement_relocates)
    (fun _ s => s.positions_relocate) source

theorem Template.parse_exact (source : String) :
    Returns (fun nodes => ∀ p ∈ positionsOfNodes nodes, p.ExactIn source) (Template.parse source) ∧
      Blames (Position.ExactIn source) (Template.parse source) :=
  run?_exact (marked_of_mem (by simp)) (fun _ => Template.topLevel_relocates)
    Template.positionsOfNodes_relocate source

/-- The positions of all tokens, of all parts of a parsed statement or template, and of all errors
of parsing and compiling are exact. -/
theorem reported_positions_exact (source : String) :
    (∀ t ∈ [Query.table, Template.table, Arithmetic.table], ∀ token ∈ (scan t source).tokens,
      token.position.ExactIn source) ∧
    Returns (fun s => ∀ p ∈ s.positions, p.ExactIn source) (Query.parse source) ∧
    Returns (fun nodes => ∀ p ∈ Template.positionsOfNodes nodes, p.ExactIn source)
      (Template.parse source) ∧
    Blames (Position.ExactIn source) (Query.parse source) ∧
    Blames (Position.ExactIn source) (Template.parse source) ∧
    (∀ m d, Blames (Position.ExactIn source) (Query.compile m d source)) ∧
    ∀ o, Blames (Position.ExactIn source) (Template.compile o source) := by
  obtain ⟨hstatement, hquery⟩ := Query.parse_exact source
  obtain ⟨hnodes, htemplate⟩ := Template.parse_exact source
  refine ⟨fun t ht => (scan_exact (marked_of_mem ht) source).1, hstatement, hnodes, hquery,
    htemplate, fun m d => ?_, fun o => ?_⟩
  · unfold Query.compile
    cases hs : Query.parse source with
    | error e => exact .error (hquery.of_error e hs)
    | ok s => exact (Query.lower_blames m d s).imp (hstatement.of_ok s hs)
  · unfold Template.compile
    cases hn : Template.parse source with
    | error e => exact .error (htemplate.of_error e hn)
    | ok nodes => exact (Template.lower_blames o nodes).imp (hnodes.of_ok nodes hn)

/-- A source of two lines, of which the first has a character of two bytes. -/
theorem reported_positions_exact_unknown :
    let source := "SELECT 'é'\nFROM Ghost"
    let unknown : Position := ⟨2, 6, 17⟩
    (∃ e, Query.compile .empty .generic source = .error e ∧ e.position? = some unknown) ∧
      unknown.ExactIn source := by
  intro source unknown
  have hplace : (match Query.compile .empty .generic source with
      | .ok _ => none
      | .error e => e.position?) = some unknown := by
    decide +kernel
  obtain ⟨-, -, -, -, -, hcompile, -⟩ := reported_positions_exact source
  cases hresult : Query.compile .empty .generic source with
  | ok q =>
    rw [hresult] at hplace
    cases hplace
  | error e =>
    rw [hresult] at hplace
    obtain ⟨p, hp, hexact⟩ := (hcompile _ _).of_error e hresult
    obtain rfl : p = unknown := Option.some.inj (hp.symm.trans hplace)
    exact ⟨⟨e, rfl, hplace⟩, hexact⟩

end EmbeddedLang
